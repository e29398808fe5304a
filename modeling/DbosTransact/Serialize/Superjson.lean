import DbosTransact.Serialize.JsValue
import DbosTransact.Serialize.Values

/-!
# The SuperJSON reader

What `decode_superjson` makes of the payloads of the TypeScript SDK. The reader walks the
annotations and changes the JSON in place, and takes each key of an annotation for one step: a field
name or an index. SuperJSON's keys are paths, so a key with several components, or with an escaped
one, is looked up as it stands. Mostly nothing has that name, and the annotation is lost; but in an
object something may, and then it is applied there.

`JsValue.Readable` says when the reader gets by: every `BigInt` and every map is reached from the
root through typed values and single plain keys. `superjson_read_iff` says that a payload is read as
its lowering exactly then. The direction from the result to the condition has one hard case, an
object where a lost annotation lands on the wrong field by its name: the field whose annotation
landed there has a shorter name, so among the fields that need an annotation and do not get theirs,
the shortest gets none.
-/

namespace Dbos

/-! ### Keys and paths -/

theorem escapeKey_of_plain {key : String} (h : PlainKey key) : escapeKey key = key := by
  have hmap : (key.toList.flatMap fun c ↦ if c = '.' ∨ c = '\\' then ['\\', c] else [c]) =
      key.toList.flatMap fun c ↦ [c] := by
    refine List.flatMap_congr fun c hc ↦ if_neg ?_
    have hplain := h c hc
    tauto
  rw [escapeKey, hmap, List.flatMap_singleton', String.ofList_toList]

theorem toList_escapeKey (key : String) : (escapeKey key).toList =
    key.toList.flatMap fun c ↦ if c = '.' ∨ c = '\\' then ['\\', c] else [c] :=
  String.toList_ofList

/-- A key whose escaped form is plain is plain itself, and its own escaped form. -/
theorem plain_of_escapeKey {key : String} (h : PlainKey (escapeKey key)) : PlainKey key := by
  intro c hc
  by_contra hspecial
  have hcond : c = '.' ∨ c = '\\' := by tauto
  have hmem : '\\' ∈ (escapeKey key).toList := by
    rw [toList_escapeKey]
    exact List.mem_flatMap.2 ⟨c, hc, by rw [if_pos hcond]; exact List.mem_cons_self⟩
  exact (h _ hmem).2 rfl

/-- Escaping makes a key longer by one character for each that is escaped. -/
theorem length_escapeKey (key : String) : (escapeKey key).toList.length =
    key.toList.length + key.toList.countP fun c ↦ c = '.' ∨ c = '\\' := by
  rw [toList_escapeKey]
  induction key.toList with
  | nil => rfl
  | cons c cs ih =>
    rw [List.flatMap_cons, List.length_append, ih, List.countP_cons, List.length_cons]
    by_cases hc : c = '.' ∨ c = '\\'
    · simp only [hc, if_true, decide_true, List.length_cons, List.length_nil]
      omega
    · simp only [hc, if_false, decide_false, Bool.false_eq_true, List.length_cons, List.length_nil]
      omega

theorem length_lt_escapeKey {key : String} (h : ¬PlainKey key) :
    key.toList.length < (escapeKey key).toList.length := by
  have hcount : 0 < key.toList.countP fun c ↦ c = '.' ∨ c = '\\' := by
    rw [List.countP_pos_iff]
    rw [PlainKey] at h
    push Not at h
    obtain ⟨c, hc, hspecial⟩ := h
    exact ⟨c, hc, by simpa [or_iff_not_imp_left] using hspecial⟩
  rw [length_escapeKey]
  omega

theorem not_plain_path (key rest : String) : ¬PlainKey (escapeKey key ++ "." ++ rest) := by
  intro h
  refine (h '.' ?_).1 rfl
  simp

theorem length_lt_path (key rest : String) :
    key.toList.length < (escapeKey key ++ "." ++ rest).toList.length := by
  have hlength := length_escapeKey key
  simp only [String.toList_append, List.length_append]
  have hdot : ".".toList.length = 1 := rfl
  omega

/-! ### Numbers -/

theorem foldl_digits (cs : List Char) :
    cs.foldl (fun n c ↦ 10 * n + (c.toNat - '0'.toNat)) 0 =
      Nat.ofDigits 10 (cs.reverse.map JsonText.digitVal) := by
  induction cs using List.reverseRecOn with
  | nil => rfl
  | append_singleton cs c ih =>
    rw [List.foldl_append, ih, List.reverse_append, List.map_append, Nat.ofDigits_append]
    simp only [List.foldl_cons, List.foldl_nil, List.reverse_singleton, List.map_singleton,
      Nat.ofDigits_singleton, List.length_singleton, pow_one, JsonText.digitVal]
    exact add_comm _ _

theorem parseDigits_printNat (n : ℕ) : parseDigits (JsonText.printNat n) = some n := by
  have hcond : ((JsonText.printNat n).isEmpty ||
      (JsonText.printNat n).any fun c ↦ !c.isDigit) = false := by
    rw [Bool.or_eq_false_iff, List.isEmpty_eq_false_iff, List.any_eq_false]
    exact ⟨JsonText.printNat_ne_nil n, fun c hc ↦ by
      simp [JsonText.isDigit_of_mem_printNat hc]⟩
  rw [parseDigits, hcond, if_neg (by decide), foldl_digits, JsonText.ofDigits_printNat]

/-- A decimal text begins with no sign. -/
theorem printNat_eq_cons (n : ℕ) : ∃ c cs, JsonText.printNat n = c :: cs ∧ c.isDigit = true := by
  obtain ⟨c, cs, hcs⟩ := List.exists_cons_of_ne_nil (JsonText.printNat_ne_nil n)
  exact ⟨c, cs, hcs, JsonText.isDigit_of_mem_printNat (by rw [hcs]; exact List.mem_cons_self)⟩

theorem parseU64_ofList (n : ℕ) (hn : n < 2 ^ 64) :
    parseU64 (String.ofList (JsonText.printNat n)) = some n := by
  obtain ⟨c, cs, hcs, hc⟩ := printNat_eq_cons n
  have hdigits := parseDigits_printNat n
  rw [parseU64, String.toList_ofList]
  rw [hcs] at hdigits ⊢
  split
  · rename_i heq
    rw [(List.cons.inj heq).1] at hc
    cases hc
  · rw [hdigits, Option.filter_some, if_pos (decide_eq_true hn)]

theorem parseU64_indexText {i : ℕ} (hi : i < 2 ^ 64) : parseU64 (indexText i) = some i :=
  parseU64_ofList i hi

/-- A path with a dot is no index. -/
theorem parseU64_of_dot {key : String} (h : '.' ∈ key.toList) : parseU64 key = none := by
  have hdigits : ∀ cs : List Char, '.' ∈ cs → parseDigits cs = none := by
    intro cs hcs
    rw [parseDigits, if_pos]
    rw [Bool.or_eq_true, List.any_eq_true]
    exact Or.inr ⟨'.', hcs, by decide⟩
  rw [parseU64]
  split
  · rename_i ds heq
    rw [heq] at h
    rw [hdigits ds (by simpa using h)]
    rfl
  · rw [hdigits _ h]
    rfl

theorem plain_indexText (i : ℕ) : PlainKey (indexText i) := by
  intro c hc
  rw [indexText, String.toList_ofList] at hc
  have hall : ∀ c ∈ "0123456789".toList, c ≠ '.' ∧ c ≠ '\\' := by simp
  exact hall c (JsonText.mem_of_isDigit (JsonText.isDigit_of_mem_printNat hc))

theorem indexText_inj {i j : ℕ} (h : indexText i = indexText j) : i = j := by
  have hlist : JsonText.printNat i = JsonText.printNat j := String.ofList_inj.1 h
  rw [← JsonText.ofDigits_printNat i, hlist, JsonText.ofDigits_printNat j]

/-- `i64` from a decimal text, when it fits. -/
theorem parseI64_bigintText (n : ℤ) :
    parseI64 (bigintText n) = if -2 ^ 63 ≤ n ∧ n < 2 ^ 63 then some n else none := by
  cases n with
  | ofNat m =>
    obtain ⟨c, cs, hcs, hc⟩ := printNat_eq_cons m
    have hdigits := parseDigits_printNat m
    rw [parseI64, bigintText, String.toList_ofList, JsonText.printInt]
    rw [hcs] at hdigits ⊢
    split
    · rename_i heq
      rw [(List.cons.inj heq).1] at hc
      cases hc
    · rename_i heq
      rw [(List.cons.inj heq).1] at hc
      cases hc
    · rw [hdigits]
      show Option.filter _ (some (Int.ofNat m)) = _
      rw [Option.filter_some]
      simp
  | negSucc m =>
    have hdigits := parseDigits_printNat (m + 1)
    rw [parseI64, bigintText, String.toList_ofList, JsonText.printInt]
    split
    · rename_i ds heq
      rw [← (List.cons.inj heq).2, hdigits]
      show Option.filter _ (some (Int.negSucc m)) = _
      rw [Option.filter_some]
      simp
    · rename_i heq
      cases (List.cons.inj heq).1
    · rename_i hminus _
      exact (hminus _ rfl).elim

/-- The text of a `BigInt` that fits becomes its number. -/
theorem bigIntNumber_bigintText {n : ℤ} (hn : -2 ^ 63 ≤ n ∧ n < 2 ^ 64) :
    bigIntNumber (bigintText n) = some (.number (.int n)) := by
  rw [bigIntNumber, parseI64_bigintText]
  by_cases hfits : n < 2 ^ 63
  · rw [if_pos ⟨hn.1, hfits⟩]
  · rw [if_neg fun h ↦ hfits h.2]
    obtain ⟨m, rfl⟩ : ∃ m : ℕ, n = m := ⟨n.toNat, by omega⟩
    have hparse : parseU64 (bigintText m) = some m := parseU64_ofList m (by omega)
    rw [hparse]
    rfl

/-! ### Walking the annotations -/

theorem mem_annotate {key : String} {typeName : Option String} {inner : List (String × Json)}
    {p : String × Json} (h : p ∈ annotate key typeName inner) :
    (∃ t, typeName = some t ∧ p = (escapeKey key, typed t inner)) ∨
      (typeName = none ∧ ∃ q ∈ inner, p = (escapeKey key ++ "." ++ q.1, q.2)) := by
  cases typeName with
  | some t => exact Or.inl ⟨t, rfl, List.mem_singleton.1 h⟩
  | none =>
    obtain ⟨q, hq, rfl⟩ := List.mem_map.1 h
    exact Or.inr ⟨rfl, q, hq, rfl⟩

namespace JsValue

theorem mem_annotationsFields {fields : List (String × JsValue)} {p : String × Json} :
    p ∈ annotationsFields fields ↔
      ∃ e ∈ fields, p ∈ annotate e.1 e.2.typeName e.2.annotations := by
  induction fields with
  | nil => simp [annotationsFields]
  | cons e rest ih => rw [annotationsFields, List.mem_append, ih, List.exists_mem_cons_iff]

theorem mem_annotationsItems {i : ℕ} {items : List JsValue} {p : String × Json} :
    p ∈ annotationsItems i items ↔ ∃ j v, items[j]? = some v ∧
      p ∈ annotate (indexText (i + j)) v.typeName v.annotations := by
  induction items generalizing i with
  | nil => simp [annotationsItems]
  | cons u rest ih =>
    rw [annotationsItems, List.mem_append, ih]
    constructor
    · rintro (h | ⟨j, v, hv, h⟩)
      · exact ⟨0, u, rfl, h⟩
      · exact ⟨j + 1, v, hv, by rwa [← Nat.add_assoc, Nat.add_right_comm]⟩
    · rintro ⟨_ | j, v, hv, h⟩
      · obtain rfl := Option.some.inj hv
        exact Or.inl h
      · exact Or.inr ⟨j, v, hv, by rwa [Nat.add_right_comm, Nat.add_assoc]⟩

/-- Below a map every path has a dot. -/
theorem dot_mem_of_mem_annotationsEntries {i : ℕ} {entries : List (String × JsValue)}
    {p : String × Json} (h : p ∈ annotationsEntries i entries) : '.' ∈ p.1.toList := by
  induction entries generalizing i with
  | nil => cases h
  | cons e rest ih =>
    rw [annotationsEntries, List.mem_append] at h
    rcases h with h | h
    · rcases mem_annotate h with ⟨t, ht, -⟩ | ⟨-, q, -, rfl⟩
      · cases ht
      · simp
    · exact ih h

end JsValue

section

variable [SerdeJson]

/-- Apply the annotation of a child, if it has one. -/
def applyAt (children : List (String × Json)) (key : String) (x : Json) : Json :=
  match Json.findField key children with
  | some c => applySuperjsonMeta c x
  | none => x

/-- The annotation changes nothing. -/
def Inert (note : Json) : Prop := ∀ x, applySuperjsonMeta note x = x

theorem applyAt_cons (key k : String) (c x : Json) (rest : List (String × Json)) :
    applyAt ((k, c) :: rest) key x =
      if k = key then applySuperjsonMeta c x else applyAt rest key x := by
  rw [applyAt, Json.findField_cons]
  by_cases hkey : k = key
  · rw [if_pos hkey, if_pos hkey]
  · rw [if_neg hkey, if_neg hkey, applyAt]

theorem applyAt_of_not_mem {key : String} {children : List (String × Json)}
    (h : key ∉ children.map Prod.fst) (x : Json) : applyAt children key x = x := by
  induction children with
  | nil => rfl
  | cons c rest ih =>
    rw [List.map_cons, List.mem_cons, not_or] at h
    rw [applyAt_cons, if_neg (Ne.symm h.1), ih h.2]

/-- The annotations of an object are applied field by field. -/
theorem applySuperjsonChildren_object {children : List (String × Json)}
    (hnodup : (children.map Prod.fst).Nodup) (fields : List (String × Json)) :
    applySuperjsonChildren children (.object fields) =
      .object (fields.map fun e ↦ (e.1, applyAt children e.1 e.2)) := by
  induction children generalizing fields with
  | nil =>
    rw [applySuperjsonChildren]
    exact congrArg Json.object (List.map_id' fields).symm
  | cons c rest ih =>
    obtain ⟨hc, hrest⟩ := List.nodup_cons.1 hnodup
    rw [applySuperjsonChildren, modifyAt, ih hrest, List.map_map]
    refine congrArg Json.object (List.map_congr_left fun e _ ↦ ?_)
    rw [Function.comp_apply, applyAt_cons]
    by_cases hkey : e.1 = c.1
    · rw [if_pos hkey, if_pos hkey.symm, hkey, applyAt_of_not_mem hc]
    · rw [if_neg hkey, if_neg (Ne.symm hkey)]

/-- The annotations of an array are applied item by item. -/
theorem applySuperjsonChildren_array {children : List (String × Json)}
    (hnodup : (children.map Prod.fst).Nodup)
    (hindex : ∀ c ∈ children, ∀ i, parseU64 c.1 = some i → c.1 = indexText i) {items : List Json}
    (hlen : items.length ≤ 2 ^ 64) :
    applySuperjsonChildren children (.array items) =
      .array (items.mapIdx fun i x ↦ applyAt children (indexText i) x) := by
  induction children generalizing items with
  | nil =>
    rw [applySuperjsonChildren]
    refine congrArg Json.array (List.ext_getElem (by simp) fun j h₁ h₂ ↦ ?_)
    rw [List.getElem_mapIdx]
    rfl
  | cons c rest ih =>
    obtain ⟨hc, hrest⟩ := List.nodup_cons.1 hnodup
    have hindex' := fun c' hc' ↦ hindex c' (List.mem_cons_of_mem _ hc')
    rw [applySuperjsonChildren, modifyAt]
    cases hparse : parseU64 c.1 with
    | none =>
      dsimp only
      rw [ih hrest hindex' hlen]
      refine congrArg Json.array (List.ext_getElem (by simp) fun j h₁ h₂ ↦ ?_)
      rw [List.getElem_mapIdx, List.getElem_mapIdx, applyAt_cons, if_neg]
      intro heq
      rw [heq, parseU64_indexText (by rw [List.length_mapIdx] at h₁; omega)] at hparse
      cases hparse
    | some i =>
      dsimp only
      have hi : c.1 = indexText i := hindex c List.mem_cons_self i hparse
      rw [ih hrest hindex' (by rwa [List.length_modify])]
      refine congrArg Json.array (List.ext_getElem (by simp) fun j h₁ h₂ ↦ ?_)
      rw [List.getElem_mapIdx, List.getElem_mapIdx, applyAt_cons, List.getElem_modify]
      by_cases hij : i = j
      · subst hij
        rw [if_pos rfl, if_pos hi, ← hi, applyAt_of_not_mem hc]
      · rw [if_neg hij, if_neg fun heq ↦ hij (indexText_inj (hi.symm.trans heq))]

/-- Annotations that change nothing do so wherever they are applied. -/
theorem applySuperjsonChildren_of_inert {children : List (String × Json)}
    (h : ∀ c ∈ children, Inert c.2) (x : Json) : applySuperjsonChildren children x = x := by
  induction children generalizing x with
  | nil => rw [applySuperjsonChildren]
  | cons c rest ih =>
    have hid : applySuperjsonMeta c.2 = id := funext (h c List.mem_cons_self)
    have hmodify : modifyAt c.1 id x = x := by
      unfold modifyAt
      split
      · simp
      · split
        · rw [List.modify_id]
        · rfl
      · rfl
    rw [applySuperjsonChildren, hid, hmodify]
    exact ih (fun c' hc' ↦ h c' (List.mem_cons_of_mem _ hc')) x

/-- No path of the annotations is an index of an array. -/
theorem applySuperjsonChildren_array_of_dot {children : List (String × Json)}
    (h : ∀ c ∈ children, '.' ∈ c.1.toList) (items : List Json) :
    applySuperjsonChildren children (.array items) = .array items := by
  induction children with
  | nil => rw [applySuperjsonChildren]
  | cons c rest ih =>
    rw [applySuperjsonChildren, modifyAt, parseU64_of_dot (h c List.mem_cons_self)]
    exact ih fun c' hc' ↦ h c' (List.mem_cons_of_mem _ hc')

/-- A typed annotation, once it is parsed: first what is inside, then the type. -/
theorem applySuperjsonMeta_typed (t : String) (inner : List (String × Json)) (x : Json) :
    applySuperjsonMeta (typed t inner).norm x =
      applySuperjsonTag (applySuperjsonChildren (Json.normFields inner []) x) t := by
  rw [typed]
  cases inner with
  | nil =>
    show applySuperjsonMeta (.array [.string t]) x = _
    rw [applySuperjsonMeta, applySuperjsonCompound, Json.normFields, applySuperjsonChildren]
  | cons p rest =>
    show applySuperjsonMeta (.array [.string t, .object (Json.normFields (p :: rest) [])]) x = _
    rw [applySuperjsonMeta, applySuperjsonCompound, applySuperjsonMeta]

namespace JsValue

/-! ### What the reader makes of a value -/

/-- What the reader makes of the JSON of a value, given the value's own annotation. -/
def read (v : JsValue) : Json :=
  let json := applySuperjsonChildren (Json.normFields v.annotations []) v.json.norm
  match v.typeName with
  | some t => applySuperjsonTag json t
  | none => json

/-- What becomes of a child, whose annotation is there if it is typed. -/
def readChild (v : JsValue) : Json := if v.typeName.isSome then v.read else v.json.norm

mutual

/-- There is a `BigInt` or a map in the value, so that it cannot be read without its annotations. -/
def rich : JsValue → Bool
  | bigint _ => true
  | map _ => true
  | array items => richItems items
  | set items => richItems items
  | object fields => richFields fields
  | _ => false

def richItems : List JsValue → Bool
  | [] => false
  | v :: rest => rich v || richItems rest

def richFields : List (String × JsValue) → Bool
  | [] => false
  | (_, v) :: rest => rich v || richFields rest

end

mutual

/-- The annotations in the value that matter are under single plain keys. -/
def Readable : JsValue → Prop
  | array items => ReadableItems items
  | set items => ReadableItems items
  | object fields => ReadableFields fields
  | map entries => richFields entries = false
  | _ => True

/-- An untyped child hands its annotations up under longer paths, so none may matter. -/
def ReadableItems : List JsValue → Prop
  | [] => True
  | v :: rest => (if v.typeName.isSome then Readable v else rich v = false) ∧ ReadableItems rest

def ReadableFields : List (String × JsValue) → Prop
  | [] => True
  | (k, v) :: rest =>
    (rich v = false ∨ PlainKey k ∧ if v.typeName.isSome then Readable v else rich v = false) ∧
      ReadableFields rest

end

/-- The child of an array can be read. -/
def ReadableChild (v : JsValue) : Prop :=
  if v.typeName.isSome then v.Readable else v.rich = false

omit [SerdeJson] in
theorem readableItems_iff (items : List JsValue) :
    ReadableItems items ↔ ∀ v ∈ items, v.ReadableChild := by
  induction items with
  | nil => simp [ReadableItems]
  | cons v rest ih => rw [ReadableItems, ih, List.forall_mem_cons, ReadableChild]

omit [SerdeJson] in
theorem readableFields_iff (fields : List (String × JsValue)) : ReadableFields fields ↔
    ∀ e ∈ fields, e.2.rich = false ∨ PlainKey e.1 ∧ e.2.ReadableChild := by
  induction fields with
  | nil => simp [ReadableFields]
  | cons e rest ih => rw [ReadableFields, ih, List.forall_mem_cons, ReadableChild]

omit [SerdeJson] in
theorem richItems_eq_false_iff (items : List JsValue) :
    richItems items = false ↔ ∀ v ∈ items, v.rich = false := by
  induction items with
  | nil => simp [richItems]
  | cons v rest ih => rw [richItems, Bool.or_eq_false_iff, ih, List.forall_mem_cons]

omit [SerdeJson] in
theorem richFields_eq_false_iff (fields : List (String × JsValue)) :
    richFields fields = false ↔ ∀ e ∈ fields, e.2.rich = false := by
  induction fields with
  | nil => simp [richFields]
  | cons e rest ih => rw [richFields, Bool.or_eq_false_iff, ih, List.forall_mem_cons]

/-! ### Values that need no annotations -/

omit [SerdeJson] in
theorem readable_of_not_rich (v : JsValue) (hv : v.rich = false) : v.Readable := by
  have hchild : ∀ v : JsValue, (v.rich = false → v.Readable) → v.rich = false →
      v.ReadableChild := by
    intro v ih hv
    rw [ReadableChild]
    split
    · exact ih hv
    · exact hv
  induction v using JsValue.induction with
  | hleaf v hleaf =>
    cases v with
    | array | set | object | map => cases hleaf
    | _ => exact trivial
  | harray items ih =>
    exact (readableItems_iff items).2 fun v hmem ↦
      hchild v (ih v hmem) ((richItems_eq_false_iff items).1 hv v hmem)
  | hset items ih =>
    exact (readableItems_iff items).2 fun v hmem ↦
      hchild v (ih v hmem) ((richItems_eq_false_iff items).1 hv v hmem)
  | hobject fields ih =>
    exact (readableFields_iff fields).2 fun e he ↦
      Or.inl ((richFields_eq_false_iff fields).1 hv e he)
  | hmap entries ih => cases hv

omit [SerdeJson] in
theorem readableChild_of_not_rich {v : JsValue} (hv : v.rich = false) : v.ReadableChild := by
  rw [ReadableChild]
  split
  · exact readable_of_not_rich v hv
  · exact hv

omit [SerdeJson] in
/-- The JSON of a value is its lowering exactly when it has neither a `BigInt` nor a map. -/
theorem json_eq_lower_iff (v : JsValue) (hv : v.WellFormed) :
    v.json.norm = v.lower.norm ↔ v.rich = false := by
  have hitems : ∀ items : List JsValue, (∀ v ∈ items, v.WellFormed →
      (v.json.norm = v.lower.norm ↔ v.rich = false)) → WellFormedItems items →
      (Json.normItems (jsonItems items) = Json.normItems (lowerItems items) ↔
        richItems items = false) := by
    intro items ih hv
    rw [wellFormedItems_iff] at hv
    rw [jsonItems_eq_map, lowerItems_eq_map, Json.normItems_eq_map, Json.normItems_eq_map,
      List.map_map, List.map_map, List.map_inj_left, richItems_eq_false_iff]
    exact forall₂_congr fun v hmem ↦ ih v hmem (hv v hmem)
  induction v using JsValue.induction with
  | hleaf v hleaf =>
    cases v with
    | bigint n => exact iff_of_false (by rintro ⟨⟩) (by rintro ⟨⟩)
    | array | set | object | map => cases hleaf
    | _ => exact iff_of_true rfl rfl
  | harray items ih =>
    rw [json, lower, rich, Json.norm, Json.norm, Json.array.injEq]
    exact hitems items ih hv.2
  | hset items ih =>
    rw [json, lower, rich, Json.norm, Json.norm, Json.array.injEq]
    exact hitems items ih hv.2
  | hobject fields ih =>
    have hwf := (wellFormedFields_iff fields).1 hv.2
    rw [json, lower, rich, Json.norm, Json.norm, Json.object.injEq, jsonFields_eq_map,
      lowerFields_eq_map, Json.normFields_eq_iff _ _ hv.1, richFields_eq_false_iff]
    exact forall₂_congr fun e he ↦ ih e he (hwf e he)
  | hmap entries ih => exact iff_of_false (by rintro ⟨⟩) (by rintro ⟨⟩)

theorem inert_normFields {inner : List (String × Json)} (h : ∀ p ∈ inner, Inert p.2.norm) :
    ∀ c ∈ Json.normFields inner [], Inert c.2 := by
  intro c hc
  rcases Json.exists_of_mem_normFields hc with hnil | ⟨t, ht, hnorm⟩
  · cases hnil
  · rw [hnorm]
    exact h _ ht

/-- A type the reader does nothing about. -/
theorem inert_typed {t : String} {inner : List (String × Json)}
    (ht : ∀ x, applySuperjsonTag x t = x) (h : ∀ p ∈ inner, Inert p.2.norm) :
    Inert (typed t inner).norm := by
  intro x
  rw [applySuperjsonMeta_typed, ht, applySuperjsonChildren_of_inert (inert_normFields h)]

theorem inert_annotate {key : String} {v : JsValue}
    (h : (∀ t ∈ v.typeName, Inert (typed t v.annotations).norm) ∧
      ∀ p ∈ v.annotations, Inert p.2.norm) :
    ∀ p ∈ annotate key v.typeName v.annotations, Inert p.2.norm := by
  intro p hp
  rcases mem_annotate hp with ⟨t, ht, rfl⟩ | ⟨-, q, hq, rfl⟩
  · exact h.1 t ht
  · exact h.2 q hq

/-- The annotations of a value with neither change nothing. -/
theorem inert_of_not_rich (v : JsValue) (hv : v.rich = false) :
    (∀ t ∈ v.typeName, Inert (typed t v.annotations).norm) ∧
      ∀ p ∈ v.annotations, Inert p.2.norm := by
  have hitems : ∀ items : List JsValue, (∀ v ∈ items, v.rich = false →
      (∀ t ∈ v.typeName, Inert (typed t v.annotations).norm) ∧
        ∀ p ∈ v.annotations, Inert p.2.norm) → richItems items = false →
      ∀ p ∈ annotationsItems 0 items, Inert p.2.norm := by
    intro items ih hv p hp
    obtain ⟨j, v, hmem, hp⟩ := mem_annotationsItems.1 hp
    have hmem' : v ∈ items := List.mem_of_getElem? hmem
    exact inert_annotate (ih v hmem' ((richItems_eq_false_iff items).1 hv v hmem')) p hp
  induction v using JsValue.induction with
  | hleaf v hleaf =>
    cases v with
    | bigint n => cases hv
    | array | set | object | map => cases hleaf
    | undefined =>
      refine ⟨?_, by rintro p ⟨⟩⟩
      rintro t ⟨⟩
      exact inert_typed (fun x ↦ by cases x <;> rfl) (by rintro p ⟨⟩)
    | date iso =>
      refine ⟨?_, by rintro p ⟨⟩⟩
      rintro t ⟨⟩
      exact inert_typed (fun x ↦ by cases x <;> rfl) (by rintro p ⟨⟩)
    | _ => exact ⟨by rintro t ⟨⟩, by rintro p ⟨⟩⟩
  | harray items ih => exact ⟨by rintro t ⟨⟩, hitems items ih hv⟩
  | hset items ih =>
    refine ⟨?_, hitems items ih hv⟩
    rintro t ⟨⟩
    exact inert_typed (fun x ↦ by cases x <;> rfl) (hitems items ih hv)
  | hobject fields ih =>
    refine ⟨by rintro t ⟨⟩, fun p hp ↦ ?_⟩
    obtain ⟨e, he, hp⟩ := mem_annotationsFields.1 hp
    exact inert_annotate (ih e he ((richFields_eq_false_iff fields).1 hv e he)) p hp
  | hmap entries ih => cases hv

/-! ### Children -/

/-- What is applied at a key is nothing, or the annotation of a path with that name. -/
theorem applyAt_normFields (inner : List (String × Json)) (key : String) (x : Json) :
    (applyAt (Json.normFields inner []) key x = x ∧ ∀ p ∈ inner, p.1 ≠ key) ∨
      ∃ t, (key, t) ∈ inner ∧
        applyAt (Json.normFields inner []) key x = applySuperjsonMeta t.norm x := by
  rw [applyAt]
  cases hfind : Json.findField key (Json.normFields inner []) with
  | none =>
    refine Or.inl ⟨rfl, fun p hp hkey ↦ ?_⟩
    have hsome : (Json.findField key (Json.normFields inner [])).isSome :=
      Json.findField_normFields_isSome (Or.inl ⟨p.2, by rw [← hkey]; exact hp⟩)
    rw [hfind] at hsome
    cases hsome
  | some c =>
    rcases Json.exists_of_mem_normFields (Json.mem_of_findField hfind) with hnil | ⟨t, ht, hnorm⟩
    · cases hnil
    · exact Or.inr ⟨t, ht, by rw [← hnorm]⟩

/-- The annotations of a container are those its children hand up. -/
def AnnotatedBy (inner : List (String × Json)) (children : List (String × JsValue)) : Prop :=
  ∀ p, p ∈ inner ↔ ∃ e ∈ children, p ∈ annotate e.1 e.2.typeName e.2.annotations

section

variable {inner : List (String × Json)} {children : List (String × JsValue)}
variable (hinner : AnnotatedBy inner children) (hnodup : (children.map Prod.fst).Nodup)
include hinner

include hnodup in
/-- A child under a plain key gets its own annotation and no other. -/
theorem applyAt_child {e : String × JsValue} (he : e ∈ children) (hplain : PlainKey e.1) :
    applyAt (Json.normFields inner []) e.1 e.2.json.norm = e.2.readChild := by
  have hown : ∀ t, (e.1, t) ∈ inner → ∃ t', e.2.typeName = some t' ∧
      t = typed t' e.2.annotations := by
    intro t ht
    obtain ⟨e', he', hp⟩ := (hinner _).1 ht
    rcases mem_annotate hp with ⟨t', ht', heq⟩ | ⟨-, q, -, heq⟩
    · obtain ⟨hkey, rfl⟩ := Prod.mk.inj heq
      have hplain' : PlainKey e'.1 := plain_of_escapeKey (hkey ▸ hplain)
      rw [escapeKey_of_plain hplain'] at hkey
      obtain rfl : e' = e := List.inj_on_of_nodup_map hnodup he' he hkey.symm
      exact ⟨t', ht', rfl⟩
    · exact absurd ((Prod.mk.inj heq).1 ▸ hplain) (not_plain_path _ _)
  rw [readChild]
  rcases applyAt_normFields inner e.1 e.2.json.norm with ⟨hnone, hfree⟩ | ⟨t, ht, hsome⟩
  · rw [hnone, if_neg]
    intro htyped
    obtain ⟨t, ht⟩ := Option.isSome_iff_exists.1 htyped
    refine hfree (escapeKey e.1, typed t e.2.annotations) ((hinner _).2 ⟨e, he, ?_⟩)
      (escapeKey_of_plain hplain)
    rw [ht]
    exact List.mem_singleton.2 rfl
  · obtain ⟨t', ht', rfl⟩ := hown t ht
    rw [hsome, applySuperjsonMeta_typed, read, ht']
    rfl

/-- What lands on a child under a key that is not plain comes from a child with a shorter key, which
loses it. -/
theorem applyAt_of_not_plain {e : String × JsValue} (hplain : ¬PlainKey e.1) (x : Json) :
    applyAt (Json.normFields inner []) e.1 x = x ∨
      ∃ e' ∈ children, e'.1.toList.length < e.1.toList.length ∧ e'.2.rich = true ∧
        ¬(PlainKey e'.1 ∧ e'.2.ReadableChild) := by
  rcases applyAt_normFields inner e.1 x with ⟨hnone, -⟩ | ⟨t, ht, hsome⟩
  · exact Or.inl hnone
  obtain ⟨e', he', hp⟩ := (hinner _).1 ht
  by_cases hrich : e'.2.rich = true
  · refine Or.inr ⟨e', he', ?_⟩
    rcases mem_annotate hp with ⟨t', ht', heq⟩ | ⟨huntyped, q, -, heq⟩
    · have hkey : e.1 = escapeKey e'.1 := (Prod.mk.inj heq).1
      have hplain' : ¬PlainKey e'.1 := fun h ↦
        hplain (by rwa [hkey, escapeKey_of_plain h])
      exact ⟨hkey ▸ length_lt_escapeKey hplain', hrich, fun h ↦ hplain' h.1⟩
    · have hkey : e.1 = escapeKey e'.1 ++ "." ++ q.1 := (Prod.mk.inj heq).1
      refine ⟨hkey ▸ length_lt_path _ _, hrich, fun h ↦ ?_⟩
      have hread := h.2
      rw [ReadableChild, huntyped, if_neg (by simp), hrich] at hread
      cases hread
  · have hinert := inert_annotate (inert_of_not_rich e'.2 (by simpa using hrich)) _ hp
    exact Or.inl (hsome.trans (hinert x))

omit hinner in
theorem readChild_eq_iff {v : JsValue} (hv : v.WellFormed)
    (ih : v.read = v.lower.norm ↔ v.Readable) :
    v.readChild = v.lower.norm ↔ v.ReadableChild := by
  rw [readChild, ReadableChild]
  split
  · exact ih
  · exact json_eq_lower_iff v hv

include hnodup in
/-- **The children of an object.** All of them are read right exactly when each that needs an
annotation can be read under its key. -/
theorem applyAt_eq_lower_iff (hwf : ∀ e ∈ children, e.2.WellFormed)
    (ih : ∀ e ∈ children, (e.2.read = e.2.lower.norm ↔ e.2.Readable)) :
    (∀ e ∈ children, applyAt (Json.normFields inner []) e.1 e.2.json.norm = e.2.lower.norm) ↔
      ∀ e ∈ children, e.2.rich = false ∨ PlainKey e.1 ∧ e.2.ReadableChild := by
  constructor
  · intro h e he
    -- by induction on the length of the key: what lands on a field comes from a shorter one
    induction hlen : e.1.toList.length using Nat.strong_induction_on generalizing e with
    | _ n hshorter =>
      subst hlen
      by_cases hplain : PlainKey e.1
      · have hread := h e he
        rw [applyAt_child hinner hnodup he hplain, readChild_eq_iff (hwf e he) (ih e he)] at hread
        exact Or.inr ⟨hplain, hread⟩
      · rcases applyAt_of_not_plain hinner hplain e.2.json.norm with
          hnone | ⟨e', he', hlt, hrich, hlost⟩
        · exact Or.inl ((json_eq_lower_iff e.2 (hwf e he)).1 (hnone.symm.trans (h e he)))
        · rcases hshorter _ hlt e' he' rfl with hpoor | hread
          · rw [hpoor] at hrich
            cases hrich
          · exact absurd hread hlost
  · intro h e he
    by_cases hplain : PlainKey e.1
    · rw [applyAt_child hinner hnodup he hplain, readChild_eq_iff (hwf e he) (ih e he)]
      rcases h e he with hpoor | hread
      · exact readableChild_of_not_rich hpoor
      · exact hread.2
    · have hpoor := (h e he).resolve_right fun hread ↦ hplain hread.1
      rcases applyAt_of_not_plain hinner hplain e.2.json.norm with
        hnone | ⟨e', he', -, hrich, hlost⟩
      · rw [hnone, json_eq_lower_iff e.2 (hwf e he)]
        exact hpoor
      · rcases h e' he' with hpoor' | hread
        · rw [hpoor'] at hrich
          cases hrich
        · exact absurd hread hlost

end

omit [SerdeJson] in
/-- The items of an array under their indices. -/
theorem annotatedBy_items (items : List JsValue) :
    AnnotatedBy (annotationsItems 0 items) (items.mapIdx fun i v ↦ (indexText i, v)) := by
  intro p
  rw [mem_annotationsItems]
  constructor
  · rintro ⟨j, v, hv, hp⟩
    obtain ⟨hj, rfl⟩ := List.getElem?_eq_some_iff.1 hv
    rw [Nat.zero_add] at hp
    exact ⟨(indexText j, items[j]), List.mem_mapIdx.2 ⟨j, hj, rfl⟩, hp⟩
  · rintro ⟨e, he, hp⟩
    obtain ⟨j, hj, rfl⟩ := List.mem_mapIdx.1 he
    exact ⟨j, items[j], List.getElem?_eq_getElem hj, by rwa [Nat.zero_add]⟩

omit [SerdeJson] in
theorem nodup_items (items : List JsValue) :
    ((items.mapIdx fun i v ↦ (indexText i, v)).map Prod.fst).Nodup := by
  rw [List.Nodup, List.pairwise_iff_getElem]
  intro i j hi hj hij heq
  simp only [List.getElem_map, List.getElem_mapIdx] at heq
  exact hij.ne (indexText_inj heq)

/-- The items of an array after the reader went over them. -/
theorem read_items {items : List JsValue} (hlen : items.length < 2 ^ 32) :
    applySuperjsonChildren (Json.normFields (annotationsItems 0 items) [])
        (Json.array (jsonItems items)).norm = .array (items.map readChild) := by
  have hindex : ∀ c ∈ Json.normFields (annotationsItems 0 items) [], ∀ i,
      parseU64 c.1 = some i → c.1 = indexText i := by
    intro c hc i hparse
    rcases Json.exists_of_mem_normFields hc with hnil | ⟨t, ht, -⟩
    · cases hnil
    obtain ⟨j, v, hv, hp⟩ := mem_annotationsItems.1 ht
    have hj : j < items.length := (List.getElem?_eq_some_iff.1 hv).1
    rcases mem_annotate hp with ⟨t', -, heq⟩ | ⟨-, q, -, heq⟩
    · have hkey : c.1 = indexText (0 + j) :=
        (Prod.mk.inj heq).1.trans (escapeKey_of_plain (plain_indexText _))
      rw [hkey, parseU64_indexText (by omega)] at hparse
      rw [hkey, Option.some.inj hparse]
    · rw [(Prod.mk.inj heq).1, parseU64_of_dot (by simp)] at hparse
      cases hparse
  rw [Json.norm, Json.normItems_eq_map, jsonItems_eq_map,
    applySuperjsonChildren_array (Json.nodup_normFields _) hindex (by simp; omega)]
  refine congrArg Json.array (List.ext_getElem (by simp) fun j h₁ h₂ ↦ ?_)
  have hj : j < items.length := by simpa using h₂
  rw [List.getElem_mapIdx, List.getElem_map, List.getElem_map, List.getElem_map]
  exact applyAt_child (e := (indexText j, items[j])) (annotatedBy_items items) (nodup_items items)
    (List.mem_mapIdx.2 ⟨j, hj, rfl⟩) (plain_indexText j)

/-- The pairs of a map are lowered to an object. -/
theorem mapOfPairs_entries (entries : List (String × JsValue))
    (acc : List (String × Json)) :
    mapOfPairs (Json.normItems (jsonEntries entries)) acc =
      some (Json.normFields (jsonFields entries) acc) := by
  induction entries generalizing acc with
  | nil => rfl
  | cons e rest ih => exact ih _

/-- **What the reader gets right.** -/
theorem read_eq_lower_iff (v : JsValue) (hv : v.WellFormed) :
    v.read = v.lower.norm ↔ v.Readable := by
  have hitems : ∀ items : List JsValue, (∀ v ∈ items, v.WellFormed →
      (v.read = v.lower.norm ↔ v.Readable)) → WellFormedItems items →
      (Json.array (items.map readChild) = (Json.array (lowerItems items)).norm ↔
        ReadableItems items) := by
    intro items ih hv
    rw [wellFormedItems_iff] at hv
    rw [lowerItems_eq_map, Json.norm, Json.normItems_eq_map, List.map_map, Json.array.injEq,
      List.map_inj_left, readableItems_iff]
    exact forall₂_congr fun v hmem ↦ readChild_eq_iff (hv v hmem) (ih v hmem (hv v hmem))
  induction v using JsValue.induction with
  | hleaf v hleaf =>
    refine iff_of_true ?_ ?_
    · cases v with
      | bigint n =>
        show (bigIntNumber (bigintText n)).getD (.string (bigintText n)) = _
        rw [bigIntNumber_bigintText hv]
        rfl
      | array | set | object | map => cases hleaf
      | _ => rfl
    · cases v with
      | array | set | object | map => cases hleaf
      | _ => exact trivial
  | harray items ih =>
    rw [Readable, ← hitems items ih hv.2]
    exact Eq.congr_left (read_items hv.1)
  | hset items ih =>
    rw [Readable, ← hitems items ih hv.2]
    refine Eq.congr_left ?_
    show applySuperjsonTag (applySuperjsonChildren _ _) "set" = _
    rw [show (set items).json = .array (jsonItems items) from rfl]
    refine (congrArg (applySuperjsonTag · "set") (read_items hv.1)).trans ?_
    rfl
  | hobject fields ih =>
    have hwf := (wellFormedFields_iff fields).1 hv.2
    have hinner : ∀ p, p ∈ annotationsFields fields ↔ _ := fun p ↦ mem_annotationsFields
    rw [Readable, readableFields_iff, ← applyAt_eq_lower_iff hinner hv.1 hwf fun e he ↦
      ih e he (hwf e he)]
    show applySuperjsonChildren _ (.object (Json.normFields (jsonFields fields) [])) =
      .object (Json.normFields (lowerFields fields) []) ↔ _
    rw [applySuperjsonChildren_object (Json.nodup_normFields _), Json.object.injEq,
      jsonFields_eq_map, lowerFields_eq_map]
    exact Json.normFields_map_eq_iff _ _ _ hv.1
  | hmap entries ih =>
    have hwf := (wellFormedFields_iff entries).1 hv.2
    have hdots : ∀ c ∈ Json.normFields (annotationsEntries 0 entries) [], '.' ∈ c.1.toList := by
      intro c hc
      rcases Json.exists_of_mem_normFields hc with hnil | ⟨t, ht, -⟩
      · cases hnil
      · exact dot_mem_of_mem_annotationsEntries (p := (c.1, t)) ht
    show applySuperjsonTag (applySuperjsonChildren
      (Json.normFields (annotationsEntries 0 entries) [])
      (.array (Json.normItems (jsonEntries entries)))) "map" =
        .object (Json.normFields (lowerFields entries) []) ↔ _
    rw [applySuperjsonChildren_array_of_dot hdots]
    show ((mapOfPairs (Json.normItems (jsonEntries entries)) []).map Json.object).getD _ = _ ↔ _
    rw [mapOfPairs_entries, Option.map_some, Option.getD_some, Json.object.injEq, jsonFields_eq_map,
      lowerFields_eq_map, Json.normFields_eq_iff _ _ hv.1, Readable, richFields_eq_false_iff]
    exact forall₂_congr fun e he ↦ json_eq_lower_iff e.2 (hwf e he)

/-! ### Rows -/

omit [SerdeJson] in
/-- The fields of a parsed row. -/
theorem superjsonRow_norm (v : JsValue) : ∃ fields, v.superjsonRow.norm = .object fields ∧
    Json.findField "json" fields = some v.json.norm ∧
      (Json.findField "meta" fields).bind (Json.get "values") = v.values.map Json.norm := by
  refine ⟨_, rfl, ?_, ?_⟩
  · cases v.values <;> exact Json.findField_normFields (by simp) (by simp)
  · cases v.values with
    | none => rw [Json.findField_normFields_of_not_mem (by simp)]; rfl
    | some t =>
      rw [Json.findField_normFields (v := .object [("values", t), ("v", .number (.int 1))])
        (by simp) (by simp)]
      show Json.findField "values" (Json.normFields [("values", t), ("v", .number (.int 1))] []) = _
      exact Json.findField_normFields (by simp) (by simp)

/-- A row is read by walking its annotations. -/
theorem decodeValue_superjsonRow {v : JsValue} {data : String}
    (hparse : SerdeJson.fromStr data = .ok v.superjsonRow)
    (hmarker : superjsonMarker.toList <:+: data.toList) :
    decodeValue Json (some data) (some superjsonName) = .ok v.read := by
  obtain ⟨fields, hrow, hjson, hvalues⟩ := v.superjsonRow_norm
  have hread : decodeSuperjson data = .ok v.read := by
    rw [decodeSuperjson, SerdeJson.parseValue, hparse]
    dsimp only
    rw [if_pos hmarker, hrow]
    dsimp only
    rw [hjson, hvalues, Option.getD_some, values, read]
    cases htype : v.typeName with
    | some t => exact congrArg Except.ok (applySuperjsonMeta_typed t v.annotations v.json.norm)
    | none =>
      cases hinner : v.annotations with
      | nil =>
        dsimp only [List.isEmpty, if_true, Option.map_none]
        rw [Json.normFields, applySuperjsonChildren]
        rfl
      | cons p rest =>
        show Except.ok (applySuperjsonMeta (.object (Json.normFields (p :: rest) [])) _) = _
        rw [applySuperjsonMeta]
  rw [decodeValue, decodeToJson_superjson, hread]
  rfl

/-- **Which payloads of the TypeScript SDK are read as their lowering.** Exactly those in which
every `BigInt` and every map is reached through typed values and single plain keys. -/
theorem superjson_read_iff (v : JsValue) (hv : v.WellFormed) (data : String)
    (hparse : SerdeJson.fromStr data = .ok v.superjsonRow)
    (hmarker : superjsonMarker.toList <:+: data.toList) :
    decodeValue Json (some data) (some superjsonName) = .ok v.lower.norm ↔ v.Readable := by
  rw [decodeValue_superjsonRow hparse hmarker, Except.ok.injEq]
  exact v.read_eq_lower_iff hv

end JsValue

end

/-- The text of a row. -/
def JsValue.text (v : JsValue) : String := JsonText.toText v.superjsonRow

/-- A set with a map inside, next to a `BigInt`. -/
def typedNesting : JsValue :=
  .object [("n", .bigint 9007199254740993),
    ("s", .set [.map [("k", .date "2024-01-02T03:04:05.000Z")]])]

/-- It is read as its lowering. -/
theorem superjson_read_iff_typedNesting :
    @decodeValue JsonText.jsonText Json _ (some typedNesting.text) (some superjsonName) =
      .ok typedNesting.lower.norm := by
  let nestingJson : SerdeJson := JsonText.jsonText
  refine (JsValue.superjson_read_iff typedNesting ?_ typedNesting.text
    (SerdeJson.fromStr_toString _ (by decide +kernel)) (by decide +kernel)).2 ?_
  · refine ⟨by decide, ⟨by decide, by decide⟩, ⟨by decide, ⟨by decide, ?_⟩, trivial⟩, trivial⟩
    exact ⟨trivial, trivial⟩
  · have hplain : PlainKey "n" ∧ PlainKey "s" := by simp [PlainKey]
    exact ⟨Or.inr ⟨hplain.1, trivial⟩, Or.inr ⟨hplain.2, ⟨rfl, trivial⟩⟩, trivial⟩

/-- A `BigInt` two levels down. -/
def nestedBigint : JsValue := .object [("a", .object [("b", .bigint 5)])]

/-- Its annotation is at the path `a.b`, which names no field, so that it is read as text. -/
theorem nested_bigint_lost :
    nestedBigint.WellFormed ∧
      @SerdeJson.fromStr JsonText.jsonText nestedBigint.text = .ok nestedBigint.superjsonRow ∧
      superjsonMarker.toList <:+: nestedBigint.text.toList ∧
      @decodeValue JsonText.jsonText Json _ (some nestedBigint.text) (some superjsonName) =
        .ok (.object [("a", .object [("b", .string "5")])]) ∧
      nestedBigint.lower.norm = .object [("a", .object [("b", .number (.int 5))])] := by
  let lostBigintJson : SerdeJson := JsonText.jsonText
  have hparse : SerdeJson.fromStr nestedBigint.text = .ok nestedBigint.superjsonRow :=
    SerdeJson.fromStr_toString _ (by decide +kernel)
  have hmarker : superjsonMarker.toList <:+: nestedBigint.text.toList := by decide +kernel
  have hwf : nestedBigint.WellFormed :=
    ⟨by decide, ⟨by decide, ⟨by decide, by decide⟩, trivial⟩, trivial⟩
  refine ⟨hwf, hparse, hmarker, ?_, rfl⟩
  rw [JsValue.decodeValue_superjsonRow hparse hmarker]
  rfl

end Dbos

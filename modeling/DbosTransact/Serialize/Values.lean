import DbosTransact.JsonText
import DbosTransact.Db.Operations

/-!
# The payload codec

What `encode_json_value` and `encode_input` write is read back by `decode_to_json` and
`decode_input` under the name of the format. The text of a value shares its column with three
markers, the two texts of a null value and the sentinel that closes a stream, and an unlabelled
column is tried as JSON before it is tried as base64. That none of this goes wrong depends on how
the texts begin: a JSON document begins with a bracket, a quote, a digit, a minus sign or one of
three letters (`beginsJson`), and the base64 text of such a document begins with a letter that is
none of these. What the libraries document about it is `SerdeJson.Standard`.
-/

namespace Dbos

/-- `serde_json::Value` as a payload. -/
instance : Serde Json where
  toValue v := .ok v
  fromValue v := .ok v

/-! ### How the texts begin -/

/-- The value is a `serde_json::Value`: every object in it is a sorted map. -/
def Json.IsValue (v : Json) : Prop := v.norm = v

/-- The blanks that may stand before a JSON document. -/
def isBlank (c : Char) : Bool := " \t\n\r".toList.contains c

/-- What the JSON library documents of the texts it writes and accepts, and that base64 is the
standard alphabet with padding. -/
structure SerdeJson.Standard [SerdeJson] : Prop where
  begins : ∀ v, ∃ c cs, (toString v).toList = c :: cs ∧ JsonText.beginsJson c = true
  refuses : ∀ s c cs v, s.toList = c :: cs → JsonText.beginsJson c = false → isBlank c = false →
    fromStr s ≠ .ok v
  base64 : ∀ s, base64Encode s = JsonText.encodeText s

/-- Such libraries, of which the JSON one refuses the empty text and the base64 one accepts nothing
but what it would write. -/
structure SerdeJson.Canonical [SerdeJson] : Prop extends SerdeJson.Standard where
  refusesEmpty : ∀ v, fromStr "" ≠ .ok v
  canonical : ∀ s t, base64Decode s = .ok t → base64Encode t = s

namespace JsonText

/-- The first six bits of a text become the first character of its base64 form. -/
theorem encodeText_begins {s : String} {c : Char} {cs : List Char} (hs : s.toList = c :: cs)
    (hc : c.val ≤ 127) :
    ∃ rest, (encodeText s).toList = base64Char (c.val.toUInt8.toNat / 4) :: rest := by
  have hbytes : ∃ bs, s.toByteArray.data.toList = c.val.toUInt8 :: bs := by
    have hs' : s = String.ofList (c :: cs) := by rw [← hs, String.ofList_toList]
    refine ⟨cs.utf8Encode.data.toList, ?_⟩
    rw [hs', String.toByteArray_ofList, List.utf8Encode_cons, List.utf8Encode_singleton,
      String.utf8EncodeChar_eq_singleton (Char.utf8Size_eq_one_iff.2 hc)]
    simp
  obtain ⟨bs, hbs⟩ := hbytes
  rw [encodeText, String.toList_ofList, hbs]
  -- one case for each way a text can end: within the first group of three bytes, or later
  rcases bs with _ | ⟨b, _ | ⟨d, bs⟩⟩
  · exact ⟨_, congrArg₂ List.cons (congrArg base64Char (by omega)) rfl⟩
  · have hb := b.toNat_lt
    exact ⟨_, congrArg₂ List.cons (congrArg base64Char (by omega)) rfl⟩
  · have hb := b.toNat_lt
    have hd := d.toNat_lt
    exact ⟨_, congrArg₂ List.cons (congrArg base64Char (by omega)) rfl⟩

/-- The first character of the base64 text of a JSON document, blanks before it included, begins no
document, no blank and no marker. -/
theorem base64Char_begins : ∀ c ∈ "\x7b[\"-tfn0123456789 \t\n\r".toList, c.val ≤ 127 ∧
    beginsJson (base64Char (c.val.toUInt8.toNat / 4)) = false ∧
    isBlank (base64Char (c.val.toUInt8.toNat / 4)) = false ∧
    base64Char (c.val.toUInt8.toNat / 4) ≠ '_' := by
  intro c hc
  have hall : ("\x7b[\"-tfn0123456789 \t\n\r".toList.all fun c ↦ decide (c.val ≤ 127 ∧
      beginsJson (base64Char (c.val.toUInt8.toNat / 4)) = false ∧
      isBlank (base64Char (c.val.toUInt8.toNat / 4)) = false ∧
      base64Char (c.val.toUInt8.toNat / 4) ≠ '_')) = true := by decide +kernel
  exact of_decide_eq_true (List.all_eq_true.1 hall c hc)

theorem mem_begins {c : Char} (hc : beginsJson c = true ∨ isBlank c = true) :
    c ∈ "\x7b[\"-tfn0123456789 \t\n\r".toList := by
  have happend : "\x7b[\"-tfn0123456789 \t\n\r".toList =
      "\x7b[\"-tfn0123456789".toList ++ " \t\n\r".toList := by decide
  rw [happend, List.mem_append]
  exact hc.imp List.contains_iff_mem.1 List.contains_iff_mem.1

/-- A text that begins like no document is read as a number, which it is not. -/
theorem ofText_refuses (s : String) (c : Char) (cs : List Char) (v : Json) (hs : s.toList = c :: cs)
    (hc : beginsJson c = false) : ofText s ≠ .ok v := by
  have hdigit : c.isDigit = false := by
    by_contra h
    exact absurd hc (by rw [beginsJson_of_isDigit (by simpa using h)]; decide)
  have hparse : parse (2 * (c :: cs).length) (c :: cs) = none := by
    rw [List.length_cons, show 2 * (cs.length + 1) = 2 * cs.length + 1 + 1 by omega, parse]
    · rw [parseNat, List.takeWhile_cons, hdigit]
      rfl
    all_goals
      rintro rest heq
      rw [(List.cons.inj heq).1] at hc
      cases hc
  rw [ofText, hs, hparse]
  rintro ⟨⟩

/-- The texts of `jsonText` are as documented. -/
theorem standard_jsonText : @SerdeJson.Standard jsonText := by
  refine @SerdeJson.Standard.mk jsonText (fun v ↦ ?_) (fun s c cs v hs hc _ ↦ ?_) fun _ ↦ rfl
  · obtain ⟨c, cs, hcs, hc⟩ := print_eq_cons v
    exact ⟨c, cs, (String.toList_ofList).trans hcs, hc⟩
  · exact ofText_refuses s c cs v hs hc

/-- A text that is read as base64 is the one that is written. -/
theorem encodeText_decode {s t : String} (h : decodeText s = .ok t) : encodeText t = s := by
  rw [decodeText] at h
  cases hbytes : decodeBytes s.toList with
  | none => simp [hbytes] at h
  | some bs =>
    have hutf : String.fromUTF8? ⟨bs.toArray⟩ = some t := by
      cases hutf : String.fromUTF8? ⟨bs.toArray⟩ with
      | none => simp [hbytes, hutf] at h
      | some u => simpa [hbytes, hutf] using h
    have hdata : t.toByteArray.data.toList = bs := by
      rw [String.fromUTF8?] at hutf
      split at hutf
      · rw [← Option.some.inj hutf]
        rfl
      · cases hutf
    rw [encodeText, hdata, encodeBytes_decode hbytes, String.ofList_toList]

theorem canonical_jsonText : @SerdeJson.Canonical jsonText :=
  @SerdeJson.Canonical.mk jsonText standard_jsonText (fun _ ↦ by rintro ⟨⟩)
    fun _ _ ↦ encodeText_decode

end JsonText

/-! ### Values -/

theorem Json.eq_null_of_isNull {v : Json} (h : v.isNull = true) : v = .null := by
  cases v <;> first | rfl | cases h

/-- A result that was tested. -/
theorem toOption_any {α : Type} {r : Except DbosError α} {p : α → Bool}
    (h : r.toOption.any p = true) : ∃ v, r = .ok v ∧ p v = true := by
  cases r with
  | ok v => exact ⟨v, rfl, h⟩
  | error e => cases h

section

variable [SerdeJson]

theorem parseValue_null : SerdeJson.parseValue "null" = .ok .null := by
  have hparse := SerdeJson.fromStr_toString .null rfl
  rw [SerdeJson.toString_null] at hparse
  rw [SerdeJson.parseValue, hparse]
  rfl

theorem encodeJsonValue_portable (j : Json) :
    encodeJsonValue j .portable = SerdeJson.toString j := by
  cases j with
  | null => exact SerdeJson.toString_null.symm
  | _ => rfl

theorem eq_null_of_toString {j : Json}
    (hparse : SerdeJson.parseValue (SerdeJson.toString j) = .ok j)
    (hnull : SerdeJson.toString j = "null") : j = .null := by
  rw [hnull, parseValue_null] at hparse
  cases hparse
  rfl

theorem decodeSuperjson_null : decodeSuperjson "null" = .ok .null := by
  have hmarker : ¬superjsonMarker.toList <:+: "null".toList := by decide
  rw [decodeSuperjson, parseValue_null]
  dsimp only
  rw [if_neg hmarker]
  rfl

theorem decodeToJson_portable (s : String) : decodeToJson (some s) (some portableName) =
    if s = "null" then .ok .null else SerdeJson.parseValue s := by
  unfold decodeToJson
  dsimp only
  rw [if_pos rfl]

theorem decodeToJson_dbosJson (s : String) : decodeToJson (some s) (some dbosJsonName) =
    if s = nilMarker then .ok .null else decodeBase64Json s := by
  unfold decodeToJson
  dsimp only
  rw [if_neg (by decide), if_pos (Or.inl rfl)]

theorem decodeToJson_empty (s : String) : decodeToJson (some s) (some "") =
    if s = nilMarker then .ok .null else decodeBase64Json s := by
  unfold decodeToJson
  dsimp only
  rw [if_neg (by decide), if_pos (Or.inr rfl)]

theorem decodeToJson_superjson (s : String) :
    decodeToJson (some s) (some superjsonName) = decodeSuperjson s := by
  unfold decodeToJson
  dsimp only
  rw [if_neg (by decide), if_neg (by decide), if_pos rfl]

/-- The text of a value in the format of its own column is read back. -/
theorem decodeToJson_encodeJsonValue {j : Json}
    (hparse : SerdeJson.parseValue (SerdeJson.toString j) = .ok j)
    (hnil : SerdeJson.base64Encode (SerdeJson.toString j) ≠ nilMarker) (fmt : Format) :
    decodeToJson (some (encodeJsonValue j fmt)) (some fmt.name) = .ok j := by
  cases fmt with
  | portable =>
    rw [encodeJsonValue_portable, show Format.portable.name = portableName from rfl,
      decodeToJson_portable]
    split
    · rw [eq_null_of_toString hparse (by assumption)]
    · exact hparse
  | dbosJson =>
    rw [show Format.dbosJson.name = dbosJsonName from rfl, decodeToJson_dbosJson, encodeJsonValue]
    by_cases hnull : j.isNull = true
    · rw [if_pos hnull, if_pos rfl, Json.eq_null_of_isNull hnull]
    · rw [if_neg hnull, if_neg hnil, decodeBase64Json, SerdeJson.base64Decode_encode]
      exact hparse

/-- The text of a value is parsed back as the value. -/
def SerdeJson.PrintsBack (v : Json) : Prop := SerdeJson.fromStr (SerdeJson.toString v) = .ok v

/-- The envelope of positional arguments an input is wrapped in. -/
def inputEnvelope (v : Json) : Json :=
  .object [("positionalArgs", .array [v]), ("namedArgs", .object [])]

/-- The marker a null value is stored as. -/
def Format.nilText : Format → String
  | .portable => "null"
  | .dbosJson => nilMarker

section

variable {v : Json}

theorem SerdeJson.PrintsBack.ne_null (hprint : SerdeJson.PrintsBack v) (hv : v ≠ .null) :
    SerdeJson.toString v ≠ "null" := by
  intro hnull
  have hparse := SerdeJson.fromStr_toString .null rfl
  rw [SerdeJson.toString_null, ← hnull, hprint] at hparse
  exact hv (Except.ok.inj hparse)

theorem SerdeJson.PrintsBack.parseValue (hprint : SerdeJson.PrintsBack v) (hv : v.IsValue) :
    SerdeJson.parseValue (SerdeJson.toString v) = .ok v := by
  rw [SerdeJson.parseValue, hprint]
  exact congrArg Except.ok hv

omit [SerdeJson] in
theorem ne_of_begins {s t : String} {c d : Char} {cs ds : List Char} (hs : s.toList = c :: cs)
    (ht : t.toList = d :: ds) (hcd : c ≠ d) : s ≠ t := by
  rintro rfl
  exact hcd (List.cons.inj (hs.symm.trans ht)).1

namespace SerdeJson.Standard

variable (hlib : SerdeJson.Standard)
include hlib

/-- How the base64 text of a document begins. -/
theorem base64_begins (v : Json) : ∃ c cs,
    (SerdeJson.base64Encode (SerdeJson.toString v)).toList = c :: cs ∧
      JsonText.beginsJson c = false ∧ isBlank c = false ∧ c ≠ '_' := by
  obtain ⟨c, cs, hcs, hc⟩ := hlib.begins v
  obtain ⟨hascii, hletter⟩ := JsonText.base64Char_begins c (JsonText.mem_begins (Or.inl hc))
  obtain ⟨rest, hrest⟩ := JsonText.encodeText_begins hcs hascii
  exact ⟨_, rest, by rw [hlib.base64, hrest], hletter⟩

/-- **The base64 text of a document is no document.** -/
theorem fromStr_base64 (v u : Json) :
    SerdeJson.fromStr (SerdeJson.base64Encode (SerdeJson.toString v)) ≠ .ok u := by
  obtain ⟨c, cs, hcs, hletter, hblank, -⟩ := hlib.base64_begins v
  exact hlib.refuses _ c cs u hcs hletter hblank

/-- The text of a value that is not null is no marker. -/
theorem encode_ne_marker (hprint : SerdeJson.PrintsBack v) (hv : v ≠ .null) (fmt : Format) :
    encodeJsonValue v fmt ≠ fmt.nilText ∧ encodeJsonValue v fmt ≠ streamClosedSentinel := by
  have hnull : v.isNull = false := by
    cases v with
    | null => exact absurd rfl hv
    | _ => rfl
  cases fmt with
  | portable =>
    obtain ⟨c, cs, hcs, hc⟩ := hlib.begins v
    rw [encodeJsonValue_portable]
    refine ⟨hprint.ne_null hv, ne_of_begins hcs (show _ = '_' :: _ from rfl) ?_⟩
    rintro rfl
    cases hc
  | dbosJson =>
    obtain ⟨c, cs, hcs, -, -, hc⟩ := hlib.base64_begins v
    rw [encodeJsonValue, hnull, if_neg (by decide)]
    exact ⟨ne_of_begins hcs (show _ = '_' :: _ from rfl) hc,
      ne_of_begins hcs (show _ = '_' :: _ from rfl) hc⟩

/-- The text of any value reads back under the name of its format. -/
theorem decodeToJson_encode (hv : v.IsValue) (hprint : SerdeJson.PrintsBack v) (fmt : Format) :
    decodeToJson (some (encodeJsonValue v fmt)) (some fmt.name) = .ok v := by
  obtain ⟨c, cs, hcs, -, -, hc⟩ := hlib.base64_begins v
  exact decodeToJson_encodeJsonValue (hprint.parseValue hv)
    (ne_of_begins hcs (show _ = '_' :: _ from rfl) hc) fmt

/-- An unlabelled base64 text falls through to the base64 branch. -/
theorem decodeToJson_unlabelled (hv : v.IsValue) (hprint : SerdeJson.PrintsBack v) :
    decodeToJson (some (encodeJsonValue v .dbosJson)) none = .ok v := by
  by_cases hnull : v.isNull = true
  · rw [encodeJsonValue, if_pos hnull, Json.eq_null_of_isNull hnull]
    rfl
  obtain ⟨c, cs, hcs, hletter, hblank, hc⟩ := hlib.base64_begins v
  have hparse : ∃ e, decodeSuperjson (SerdeJson.base64Encode (SerdeJson.toString v)) =
      .error e := by
    rw [decodeSuperjson, SerdeJson.parseValue]
    cases hs : SerdeJson.fromStr (SerdeJson.base64Encode (SerdeJson.toString v)) with
    | ok u => exact absurd hs (hlib.fromStr_base64 v u)
    | error e => exact ⟨_, rfl⟩
  obtain ⟨e, he⟩ := hparse
  have hmarker : ¬(SerdeJson.base64Encode (SerdeJson.toString v) = "null" ∨
      SerdeJson.base64Encode (SerdeJson.toString v) = nilMarker) := by
    rintro (h | h)
    · refine ne_of_begins hcs (show _ = 'n' :: _ from rfl) ?_ h
      rintro rfl
      cases hletter
    · exact ne_of_begins hcs (show _ = '_' :: _ from rfl) hc h
  rw [encodeJsonValue, if_neg hnull, decodeToJson, if_neg hmarker, he, decodeBase64Json,
    SerdeJson.base64Decode_encode]
  exact hprint.parseValue hv

end SerdeJson.Standard

omit [SerdeJson] in
theorem positionalArg_envelope (v : Json) : positionalArg (inputEnvelope v) = .ok v.norm := rfl

/-- An input is read back under the name of its format. -/
theorem decodeInput_encodeInput (hlib : SerdeJson.Standard) (hv : v.IsValue)
    (hprint : SerdeJson.PrintsBack v) (henvelope : SerdeJson.PrintsBack (inputEnvelope v))
    (fmt : Format) :
    ∃ text, encodeInput v fmt = .ok text ∧
      decodeInput Json (some text) (some fmt.name) = .ok v := by
  cases fmt with
  | portable =>
    refine ⟨_, rfl, ?_⟩
    have hnull : SerdeJson.toString (inputEnvelope v) ≠ "null" := henvelope.ne_null (by rintro ⟨⟩)
    rw [decodeInput, show Format.portable.name = portableName from rfl, if_pos rfl]
    show (if SerdeJson.toString (inputEnvelope v) = "null" then _ else _) = _
    have hparse : SerdeJson.fromStr (SerdeJson.toString (inputEnvelope v)) =
        .ok (inputEnvelope v) := henvelope
    rw [if_neg hnull, show Json.object _ = inputEnvelope v from rfl, hparse]
    dsimp only
    rw [positionalArg_envelope, hv]
    rfl
  | dbosJson =>
    refine ⟨_, rfl, ?_⟩
    rw [decodeInput, show Format.dbosJson.name = dbosJsonName from rfl, if_neg (by decide),
      if_neg (by decide), decodeValue]
    have hread := hlib.decodeToJson_encode hv hprint .dbosJson
    rw [show Format.dbosJson.name = dbosJsonName from rfl] at hread
    rw [hread]
    rfl

/-- **The payload codec.** For a JSON value whose text, bare and inside the input envelope, is
parsed back: the value and the input are read back under either format; unless it is null, its text
is neither the null marker of its format nor the sentinel of a stream; its base64 text is read back
from an unlabelled column; and that text is not itself a JSON document. -/
theorem payload_codec (hlib : SerdeJson.Standard) (v : Json) (hv : v.IsValue)
    (hprint : SerdeJson.PrintsBack v) (henvelope : SerdeJson.PrintsBack (inputEnvelope v)) :
    (∀ fmt : Format, decodeToJson (some (encodeJsonValue v fmt)) (some fmt.name) = .ok v ∧
      ∃ text, encodeInput v fmt = .ok text ∧
        decodeInput Json (some text) (some fmt.name) = .ok v) ∧
    (v ≠ .null → ∀ fmt, encodeJsonValue v fmt ≠ fmt.nilText ∧
      encodeJsonValue v fmt ≠ streamClosedSentinel) ∧
    decodeToJson (some (encodeJsonValue v .dbosJson)) none = .ok v ∧
    ∀ u, SerdeJson.fromStr (SerdeJson.base64Encode (SerdeJson.toString v)) ≠ .ok u :=
  ⟨fun fmt ↦ ⟨hlib.decodeToJson_encode hv hprint fmt,
      decodeInput_encodeInput hlib hv hprint henvelope fmt⟩,
    fun hne fmt ↦ hlib.encode_ne_marker hprint hne fmt, hlib.decodeToJson_unlabelled hv hprint,
    hlib.fromStr_base64 v⟩

end

end

/-- A value that looks like a marker and contains one. -/
def markerValue : Json := .object [("null", .string "__DBOS_NIL"), ("v", .array [.null])]

/-- The codec on a value that spells out the markers. -/
theorem payload_codec_markerValue :
    @decodeToJson JsonText.jsonText
      (some (@encodeJsonValue JsonText.jsonText markerValue .dbosJson)) none = .ok markerValue := by
  let payloadJson : SerdeJson := JsonText.jsonText
  exact (payload_codec JsonText.standard_jsonText markerValue (by rfl)
    (SerdeJson.fromStr_toString _ (by decide)) (SerdeJson.fromStr_toString _ (by decide))).2.2.1

end Dbos

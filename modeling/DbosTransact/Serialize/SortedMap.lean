import DbosTransact.Serialize
import Mathlib.Data.String.Basic

/-!
# Objects as sorted maps

`Json.norm` turns each object of a parsed text into a sorted map with one field for each key. What
holds of the result: its keys are in order (`sorted_normFields`), each of its fields is one of the
text (`exists_of_mem_normFields`), each key of the text is there (`findField_normFields`), and
a map of the values is a map of the values of the text (`normFields_map_eq_iff`).
-/

namespace Dbos.Json

/-- The keys are in strictly increasing order. -/
def Sorted (fields : List (String × Json)) : Prop := (fields.map Prod.fst).Pairwise (· < ·)

theorem mem_insertField {k : String} {v : Json} {fields : List (String × Json)}
    {f : String × Json} (h : f ∈ insertField k v fields) : f = (k, v) ∨ f ∈ fields := by
  induction fields with
  | nil => exact Or.inl (List.mem_singleton.1 h)
  | cons g rest ih =>
    rw [insertField] at h
    repeat' split at h
    · rcases List.mem_cons.1 h with rfl | h
      · exact Or.inl rfl
      · exact Or.inr (List.mem_cons_of_mem _ h)
    · rcases List.mem_cons.1 h with rfl | h
      · exact Or.inl rfl
      · exact Or.inr h
    · rcases List.mem_cons.1 h with rfl | h
      · exact Or.inr List.mem_cons_self
      · exact (ih h).imp_right (List.mem_cons_of_mem _)

theorem sorted_insertField {k : String} {v : Json} {fields : List (String × Json)}
    (h : Sorted fields) : Sorted (insertField k v fields) := by
  induction fields with
  | nil => simp [insertField, Sorted]
  | cons g rest ih =>
    have hrest : Sorted rest := (List.pairwise_cons.1 h).2
    have hhead : ∀ k' ∈ rest.map Prod.fst, g.1 < k' := (List.pairwise_cons.1 h).1
    rw [insertField]
    split
    · rename_i heq
      subst heq
      exact h
    · split
      · rename_i hlt
        refine List.pairwise_cons.2 ⟨fun k' hk' ↦ ?_, h⟩
        rcases List.mem_cons.1 hk' with rfl | hk'
        · exact hlt
        · exact hlt.trans (hhead k' hk')
      · rename_i hne hlt
        refine List.pairwise_cons.2 ⟨fun k' hk' ↦ ?_, ih hrest⟩
        obtain ⟨f, hf, rfl⟩ := List.mem_map.1 hk'
        rcases mem_insertField hf with rfl | hf
        · exact lt_of_le_of_ne (not_lt.1 hlt) (Ne.symm hne)
        · exact hhead _ (List.mem_map_of_mem hf)

theorem sorted_normFields {fields acc : List (String × Json)} (h : Sorted acc) :
    Sorted (normFields fields acc) := by
  induction fields generalizing acc with
  | nil => rwa [normFields]
  | cons f rest ih =>
    rw [normFields]
    exact ih (sorted_insertField h)

theorem Sorted.nodup {fields : List (String × Json)} (h : Sorted fields) :
    (fields.map Prod.fst).Nodup := h.imp fun hlt ↦ hlt.ne

theorem normItems_eq_map (items : List Json) : normItems items = items.map norm := by
  induction items with
  | nil => rfl
  | cons v rest ih => rw [normItems, ih, List.map_cons]

theorem nodup_normFields (fields : List (String × Json)) :
    ((normFields fields []).map Prod.fst).Nodup :=
  have hnil : Sorted [] := List.Pairwise.nil
  (sorted_normFields hnil).nodup

/-! ### Looking up a field -/

theorem findField_cons (k : String) (f : String × Json) (rest : List (String × Json)) :
    findField k (f :: rest) = if f.1 = k then some f.2 else findField k rest := by
  by_cases hk : f.1 = k <;> simp [findField, hk]

theorem findField_insertField (k k' : String) (v : Json) (fields : List (String × Json)) :
    findField k (insertField k' v fields) = if k' = k then some v else findField k fields := by
  induction fields with
  | nil => simp [insertField, findField_cons]
  | cons f rest ih =>
    rw [insertField]
    split
    · rename_i heq
      subst heq
      simp only [findField_cons]
      split <;> rfl
    · split
      · simp only [findField_cons]
      · rename_i hne _
        rw [findField_cons, findField_cons, ih]
        by_cases hk : f.1 = k
        · rw [if_pos hk, if_pos hk, if_neg fun h ↦ hne (h.trans hk.symm)]
        · rw [if_neg hk, if_neg hk]

theorem mem_of_findField {k : String} {v : Json} {fields : List (String × Json)}
    (h : findField k fields = some v) : (k, v) ∈ fields := by
  induction fields with
  | nil => cases h
  | cons f rest ih =>
    rw [findField_cons] at h
    split at h
    · rename_i hk
      obtain rfl := Option.some.inj h
      exact hk ▸ List.mem_cons_self
    · exact List.mem_cons_of_mem _ (ih h)

/-- A field of the sorted map is one of the fields it was made of. -/
theorem exists_of_mem_normFields {fields acc : List (String × Json)} {f : String × Json}
    (h : f ∈ normFields fields acc) : f ∈ acc ∨ ∃ v, (f.1, v) ∈ fields ∧ f.2 = norm v := by
  induction fields generalizing acc with
  | nil => exact Or.inl (by rwa [normFields] at h)
  | cons g rest ih =>
    rw [normFields] at h
    rcases ih h with h | ⟨v, hv, hf⟩
    · rcases mem_insertField h with rfl | h
      · exact Or.inr ⟨g.2, List.mem_cons_self, rfl⟩
      · exact Or.inl h
    · exact Or.inr ⟨v, List.mem_cons_of_mem _ hv, hf⟩

/-- Every key is found again, with the last of its values. -/
theorem findField_normFields_isSome {fields acc : List (String × Json)} {k : String}
    (h : (∃ v, (k, v) ∈ fields) ∨ (findField k acc).isSome) :
    (findField k (normFields fields acc)).isSome := by
  induction fields generalizing acc with
  | nil =>
    rw [normFields]
    exact h.resolve_left (by rintro ⟨v, ⟨⟩⟩)
  | cons g rest ih =>
    rw [normFields]
    refine ih ?_
    rw [findField_insertField]
    by_cases hk : g.1 = k
    · rw [if_pos hk]
      exact Or.inr rfl
    · rw [if_neg hk]
      refine h.imp_left ?_
      rintro ⟨v, hv⟩
      rcases List.mem_cons.1 hv with rfl | hv
      · exact absurd rfl hk
      · exact ⟨v, hv⟩

theorem findField_normFields_of_not_mem {fields acc : List (String × Json)} {k : String}
    (h : k ∉ fields.map Prod.fst) : findField k (normFields fields acc) = findField k acc := by
  induction fields generalizing acc with
  | nil => rw [normFields]
  | cons g rest ih =>
    rw [List.map_cons, List.mem_cons, not_or] at h
    rw [normFields, ih h.2, findField_insertField, if_neg (Ne.symm h.1)]

/-- Where the keys are distinct, each is found with its own value. -/
theorem findField_normFields {fields acc : List (String × Json)} {k : String} {v : Json}
    (hnodup : (fields.map Prod.fst).Nodup) (h : (k, v) ∈ fields) :
    findField k (normFields fields acc) = some (norm v) := by
  induction fields generalizing acc with
  | nil => cases h
  | cons g rest ih =>
    obtain ⟨hg, hrest⟩ := List.nodup_cons.1 hnodup
    rw [normFields]
    rcases List.mem_cons.1 h with rfl | h
    · rw [findField_normFields_of_not_mem hg, findField_insertField, if_pos rfl]
    · exact ih hrest h

/-! ### Mapping the values -/

section

variable (g : String → Json → Json)

theorem findField_map (k : String) (fields : List (String × Json)) :
    findField k (fields.map fun e ↦ (e.1, g e.1 e.2)) = (findField k fields).map (g k) := by
  induction fields with
  | nil => rfl
  | cons f rest ih =>
    rw [List.map_cons, findField_cons, findField_cons, ih]
    dsimp only
    split
    · rename_i hk
      subst hk
      rfl
    · rfl

theorem insertField_map (k : String) (v : Json) (fields : List (String × Json)) :
    (insertField k v fields).map (fun e ↦ (e.1, g e.1 e.2)) =
      insertField k (g k v) (fields.map fun e ↦ (e.1, g e.1 e.2)) := by
  induction fields with
  | nil => rfl
  | cons f rest ih =>
    rw [insertField, List.map_cons, insertField]
    split
    · rfl
    · split
      · rfl
      · rw [List.map_cons, ih]

variable {α : Type} (a b : α → Json)

theorem normFields_map {l : List (String × α)} {acc : List (String × Json)}
    (h : ∀ e ∈ l, g e.1 (norm (a e.2)) = norm (b e.2)) :
    (normFields (l.map fun e ↦ (e.1, a e.2)) acc).map (fun e ↦ (e.1, g e.1 e.2)) =
      normFields (l.map fun e ↦ (e.1, b e.2)) (acc.map fun e ↦ (e.1, g e.1 e.2)) := by
  induction l generalizing acc with
  | nil => rfl
  | cons e rest ih =>
    rw [List.map_cons, List.map_cons, normFields, normFields,
      ih fun e' he' ↦ h e' (List.mem_cons_of_mem _ he'), insertField_map,
      h e List.mem_cons_self]

/-- Two objects with the same distinct keys are the same sorted map, after a map of the values of
the first, exactly when they are at each key. -/
theorem normFields_map_eq_iff {l : List (String × α)} (hl : (l.map Prod.fst).Nodup) :
    (normFields (l.map fun e ↦ (e.1, a e.2)) []).map (fun e ↦ (e.1, g e.1 e.2)) =
        normFields (l.map fun e ↦ (e.1, b e.2)) [] ↔
      ∀ e ∈ l, g e.1 (norm (a e.2)) = norm (b e.2) := by
  have hkeys : ∀ c : α → Json, ((l.map fun e ↦ (e.1, c e.2)).map Prod.fst).Nodup := by
    intro c
    rw [List.map_map]
    exact hl
  refine ⟨fun h e he ↦ ?_, fun h ↦ normFields_map g a b h⟩
  have hfind := congrArg (findField e.1) h
  rw [findField_map,
    findField_normFields (hkeys a) (List.mem_map_of_mem (f := fun e ↦ (e.1, a e.2)) he),
    findField_normFields (hkeys b) (List.mem_map_of_mem (f := fun e ↦ (e.1, b e.2)) he)] at hfind
  exact Option.some.inj hfind

/-- Two objects with the same distinct keys are the same sorted map exactly when they are at each
key. -/
theorem normFields_eq_iff {l : List (String × α)} (hl : (l.map Prod.fst).Nodup) :
    normFields (l.map fun e ↦ (e.1, a e.2)) [] = normFields (l.map fun e ↦ (e.1, b e.2)) [] ↔
      ∀ e ∈ l, norm (a e.2) = norm (b e.2) := by
  have h := normFields_map_eq_iff (fun _ v ↦ v) a b hl
  rwa [List.map_id'] at h

end

end Dbos.Json

import Mathlib.Data.List.Nodup
import Mathlib.Data.List.Sort
import Mathlib.Logic.Equiv.Basic

/-!
# Windows of an ordered list

What `OFFSET` and `LIMIT` cut out of a list of rows, and what can be said of it when the rows are
only sorted by a key that need not tell them apart.

`window_filter_iff` compares a window of the rows with the same window of those that satisfy a
condition. `Fits.paged` and `exists_repeated` are about a client that goes through a list page by
page when every page may be cut out of another arrangement of the same rows: it sees a row exactly
once, whatever the arrangements, exactly when no page ends between this row and another one with the
same key.
-/

namespace Window

variable {α κ : Type*}

/-- `OFFSET offset LIMIT limit`. -/
def window (offset : ℕ) (limit : Option ℕ) (l : List α) : List α :=
  match limit with
  | none => l.drop offset
  | some n => (l.drop offset).take n

/-- The window and what is skipped before it. -/
def reach (offset : ℕ) (limit : Option ℕ) (l : List α) : List α :=
  l.take offset ++ window offset limit l

theorem window_sublist (offset : ℕ) (limit : Option ℕ) (l : List α) :
    (window offset limit l).Sublist l := by
  cases limit with
  | none => exact List.drop_sublist _ _
  | some n => exact (List.take_sublist _ _).trans (List.drop_sublist _ _)

theorem window_eq_nil_iff {offset : ℕ} {limit : Option ℕ} {l : List α} :
    window offset limit l = [] ↔ limit = some 0 ∨ l.length ≤ offset := by
  cases limit with
  | none => simp [window]
  | some n => simp [window]

/-- A window starts with the element at its offset. -/
theorem getElem?_of_window {offset : ℕ} {limit : Option ℕ} {l : List α} {x : α} {xs : List α}
    (h : window offset limit l = x :: xs) : l[offset]? = some x := by
  have hhead : (l.drop offset)[0]? = some x := by
    cases limit with
    | none => rw [← List.head?_eq_getElem?, show l.drop offset = x :: xs from h]; rfl
    | some n =>
      have htake : (l.drop offset).take n = x :: xs := h
      cases hdrop : l.drop offset with
      | nil => rw [hdrop, List.take_nil] at htake; cases htake
      | cons y ys =>
        rw [hdrop] at htake
        cases n with
        | zero => cases htake
        | succ n => cases htake; rfl
  rwa [List.getElem?_drop, Nat.add_zero] at hhead

/-- What a window of a list has in common with the same window of its elements that satisfy `p`. -/
theorem window_filter_of_reach {p : α → Bool} {offset : ℕ} {limit : Option ℕ} {l : List α}
    (h : ∀ x ∈ reach offset limit l, p x = true) :
    window offset limit (l.filter p) = window offset limit l := by
  cases limit with
  | none =>
    have hall : ∀ x ∈ l, p x = true := fun x hx ↦
      h x (by rw [reach, window, List.take_append_drop]; exact hx)
    rw [List.filter_eq_self.2 hall]
  | some n =>
    have htake : ∀ x ∈ l.take (offset + n), p x = true := fun x hx ↦
      h x (by rw [reach, window, ← List.take_add]; exact hx)
    have hsplit : l.filter p = l.take (offset + n) ++ (l.drop (offset + n)).filter p := by
      conv_lhs => rw [← List.take_append_drop (offset + n) l, List.filter_append,
        List.filter_eq_self.2 htake]
    have hcut : (l.filter p).take (offset + n) = l.take (offset + n) := by
      rw [hsplit, List.take_append, List.take_take, min_self]
      rcases le_total l.length (offset + n) with hle | hle
      · rw [List.drop_eq_nil_of_le hle, List.filter_nil, List.take_nil, List.append_nil]
      · rw [List.length_take_of_le hle, Nat.sub_self, List.take_zero, List.append_nil]
    rw [window, window, List.take_drop, List.take_drop, hcut]

/-- The same window of a list and of its elements that satisfy `p` is the same list exactly when it
is empty or nothing before its end is left out. -/
theorem window_filter_iff {p : α → Bool} {offset : ℕ} {limit : Option ℕ} {l : List α}
    (hnd : l.Nodup) : window offset limit l = window offset limit (l.filter p) ↔
      window offset limit l = [] ∨ ∀ x ∈ reach offset limit l, p x = true := by
  constructor
  · intro heq
    rcases hw : window offset limit l with - | ⟨x, xs⟩
    · exact Or.inl rfl
    refine Or.inr fun y hy ↦ ?_
    -- the first element of the window has as many elements before it in both lists
    have hx := getElem?_of_window hw
    have hx' := getElem?_of_window (heq ▸ hw)
    obtain ⟨ho, hget⟩ := List.getElem?_eq_some_iff.1 hx
    have hsplit : l = l.take offset ++ x :: l.drop (offset + 1) := by
      rw [← hget, ← List.drop_eq_getElem_cons ho, List.take_append_drop]
    have hmem : ∀ y ∈ window offset limit l, p y = true := fun y hy ↦ by
      rw [heq] at hy
      exact (List.mem_filter.1 ((window_sublist _ _ _).subset hy)).2
    have hpx : p x = true := hmem x (by rw [hw]; exact List.mem_cons_self)
    have hfilter : l.filter p =
        (l.take offset).filter p ++ x :: (l.drop (offset + 1)).filter p := by
      conv_lhs => rw [hsplit, List.filter_append, List.filter_cons_of_pos hpx]
    have hlen : ((l.take offset).filter p).length = (l.take offset).length := by
      have hnd' := hnd.filter p
      rw [hfilter] at hnd' hx'
      obtain ⟨h₁, h₁'⟩ := List.getElem?_eq_some_iff.1 hx'
      have hat : (((l.take offset).filter p) ++ x :: (l.drop (offset + 1)).filter p)[
          ((l.take offset).filter p).length]? = some x := by simp
      obtain ⟨h₂, h₂'⟩ := List.getElem?_eq_some_iff.1 hat
      rw [(hnd'.getElem_inj_iff).1 (h₂'.trans h₁'.symm), List.length_take_of_le ho.le]
    rcases List.mem_append.1 hy with hy | hy
    · exact List.length_filter_eq_length_iff.1 hlen y hy
    · exact hmem y hy
  · rintro (hnil | hall)
    · rw [hnil, eq_comm, window_eq_nil_iff]
      exact (window_eq_nil_iff.1 hnil).imp id (List.length_filter_le p l).trans
    · exact (window_filter_of_reach hall).symm

/-- Lists of elements that a function tells apart are told apart by it. -/
theorem eq_of_map_eq {β : Type*} {f : α → β} {l l' : List α} (h : l.map f = l'.map f)
    (hf : ∀ a ∈ l, ∀ b ∈ l', f a = f b → a = b) : l = l' := by
  induction l generalizing l' with
  | nil => exact (List.map_eq_nil_iff.1 h.symm).symm
  | cons a l ih =>
    obtain ⟨b, l'', rfl, hab, hrest⟩ := List.map_eq_cons_iff.1 h.symm
    rw [hf a List.mem_cons_self b List.mem_cons_self hab.symm,
      ih hrest.symm fun a ha b hb ↦ hf a (List.mem_cons_of_mem _ ha) b (List.mem_cons_of_mem _ hb)]

/-! ### Rows sorted by a key -/

section

variable [LinearOrder κ] (key : α → κ)

/-- The rows in an order that the key allows. -/
structure Arrangement (rows l : List α) : Prop where
  perm : l.Perm rows
  sorted : l.Pairwise fun a b ↦ key a ≤ key b

/-- The rows with a smaller key. -/
def below (rows : List α) (x : α) : ℕ := rows.countP fun y ↦ key y < key x

/-- The rows with no larger key. -/
def upTo (rows : List α) (x : α) : ℕ := rows.countP fun y ↦ key y ≤ key x

variable {key} {rows l : List α}

/-- In every arrangement a row stands behind all rows with a smaller key, and before all rows with a
larger one. -/
theorem Arrangement.place (h : Arrangement key rows l) {i : ℕ} {x : α} (hx : l[i]? = some x) :
    below key rows x ≤ i ∧ i < upTo key rows x := by
  obtain ⟨hi, rfl⟩ := List.getElem?_eq_some_iff.1 hx
  have hle : ∀ j (hj : j < l.length), j ≤ i → key l[j] ≤ key l[i] := fun j hj hji ↦ by
    rcases hji.eq_or_lt with rfl | hlt
    · exact le_rfl
    · exact List.pairwise_iff_getElem.1 h.sorted j i hj hi hlt
  have hge : ∀ j (hj : j < l.length), i ≤ j → key l[i] ≤ key l[j] := fun j hj hij ↦ by
    rcases hij.eq_or_lt with rfl | hlt
    · exact le_rfl
    · exact List.pairwise_iff_getElem.1 h.sorted i j hi hj hlt
  constructor
  · have hdrop : (l.drop i).countP (fun y ↦ decide (key y < key l[i])) = 0 := by
      refine List.countP_eq_zero.2 fun y hy ↦ ?_
      obtain ⟨j, hj, rfl⟩ := List.mem_iff_getElem.1 hy
      rw [List.getElem_drop]
      exact fun hlt ↦ absurd (of_decide_eq_true hlt) (hge _ _ (Nat.le_add_right _ _)).not_gt
    have hsplit : ∀ P : α → Bool, l.countP P = (l.take i).countP P + (l.drop i).countP P :=
      fun P ↦ by rw [← List.countP_append, List.take_append_drop]
    rw [below, ← h.perm.countP_eq, hsplit, hdrop, Nat.add_zero]
    exact List.countP_le_length.trans (List.length_take_le _ _)
  · have htake : (l.take (i + 1)).countP (fun y ↦ decide (key y ≤ key l[i])) = i + 1 := by
      rw [List.countP_eq_length.2, List.length_take_of_le hi]
      intro y hy
      obtain ⟨j, hj, rfl⟩ := List.mem_iff_getElem.1 hy
      rw [List.length_take] at hj
      rw [List.getElem_take]
      exact decide_eq_true (hle _ _ (by omega))
    rw [upTo, ← h.perm.countP_eq]
    have hsub := (List.take_sublist (i + 1) l).countP_le (p := fun y ↦ decide (key y ≤ key l[i]))
    omega

theorem upTo_le_below (rows : List α) {x y : α} (h : key x < key y) :
    upTo key rows x ≤ below key rows y :=
  List.countP_mono_left fun _ _ hz ↦ decide_eq_true ((of_decide_eq_true hz).trans_lt h)

/-- The rows between these two places are those with the same key. -/
theorem Arrangement.key_eq (h : Arrangement key rows l) {i : ℕ} {x y : α} (hy : l[i]? = some y)
    (hbelow : below key rows x ≤ i) (hupTo : i < upTo key rows x) : key y = key x := by
  obtain ⟨hyb, hyu⟩ := h.place hy
  rcases lt_trichotomy (key y) (key x) with hlt | heq | hlt
  · have := upTo_le_below rows hlt
    omega
  · exact heq
  · have := upTo_le_below rows hlt
    omega

theorem exists_arrangement (key : α → κ) (rows : List α) : ∃ l, Arrangement key rows l := by
  have htotal : Std.Total fun a b ↦ key a ≤ key b := ⟨fun a b ↦ le_total _ _⟩
  have htrans : IsTrans α fun a b ↦ key a ≤ key b := ⟨fun a b c ↦ le_trans⟩
  exact ⟨rows.insertionSort fun a b ↦ key a ≤ key b, List.perm_insertionSort _ _,
    List.pairwise_insertionSort _ _⟩

/-- Two rows with the same key may change places. -/
theorem Arrangement.swap [DecidableEq α] (h : Arrangement key rows l) {a b : α} (ha : a ∈ rows)
    (hb : b ∈ rows) (hab : key a = key b) (hnd : rows.Nodup) :
    Arrangement key rows (l.map (Equiv.swap a b)) := by
  have hkey : ∀ x, key (Equiv.swap a b x) = key x := fun x ↦ by
    rw [Equiv.swap_apply_def]
    split_ifs with h₁ h₂
    · rw [h₁, hab]
    · rw [h₂, hab]
    · rfl
  refine ⟨?_, List.pairwise_map.2 (h.sorted.imp fun hle ↦ by rwa [hkey, hkey])⟩
  refine (h.perm.map _).trans ?_
  refine (List.perm_ext_iff_of_nodup (hnd.map (Equiv.injective _)) hnd).2 fun x ↦ ?_
  rw [List.mem_map]
  have hmem : ∀ x ∈ rows, Equiv.swap a b x ∈ rows := fun x hx ↦ by
    rw [Equiv.swap_apply_def]
    split_ifs
    · exact hb
    · exact ha
    · exact hx
  constructor
  · rintro ⟨y, hy, rfl⟩
    exact hmem y hy
  · exact fun hx ↦ ⟨Equiv.swap a b x, hmem x hx, Equiv.swap_apply_self a b x⟩

/-! ### Page by page -/

/-- Page `k` of pages of `p` rows. -/
def page (p k : ℕ) (l : List α) : List α := window (k * p) (some p) l

/-- What a client has seen that asks for page after page until one is empty, where page `k` is cut
out of the arrangement `L k`. -/
def Paged (p : ℕ) (L : ℕ → List α) (seen : List α) : Prop :=
  ∃ n, (∀ k < n, page p k (L k) ≠ []) ∧ page p n (L n) = [] ∧
    seen = (List.range n).flatMap fun k ↦ page p k (L k)

/-- No page ends between the row and another one with the same key. -/
def Fits (key : α → κ) (p : ℕ) (rows : List α) (x : α) : Prop :=
  below key rows x / p = (upTo key rows x - 1) / p

theorem mem_page {p k : ℕ} (hp : 0 < p) {x : α} :
    x ∈ page p k l ↔ ∃ i, l[i]? = some x ∧ i / p = k := by
  rw [page, window, List.mem_iff_getElem?]
  constructor
  · rintro ⟨i, hi⟩
    rw [List.getElem?_take, List.getElem?_drop] at hi
    obtain ⟨hip, hi⟩ := Option.ite_none_right_eq_some.1 hi
    have hpage : (k * p + i) / p = k := by
      rw [Nat.mul_comm, Nat.mul_add_div hp, Nat.div_eq_of_lt hip, Nat.add_zero]
    exact ⟨k * p + i, hi, hpage⟩
  · rintro ⟨i, hi, rfl⟩
    refine ⟨i % p, ?_⟩
    rw [List.getElem?_take, List.getElem?_drop, if_pos (Nat.mod_lt _ hp), Nat.mul_comm,
      Nat.div_add_mod]
    exact hi

theorem page_eq_nil_iff {p k : ℕ} (hp : 0 < p) : page p k l = [] ↔ l.length ≤ k * p := by
  rw [page, window_eq_nil_iff, Option.some_inj]
  exact or_iff_right hp.ne'

theorem nodup_page {p k : ℕ} (hnd : l.Nodup) : (page p k l).Nodup :=
  hnd.sublist (window_sublist _ _ _)

variable {p : ℕ} {L : ℕ → List α}

/-- The pages come to an end. -/
theorem exists_paged (hp : 0 < p) (hL : ∀ k, (L k).length = rows.length) :
    ∃ n, (∀ k < n, page p k (L k) ≠ []) ∧ page p n (L n) = [] := by
  have hex : ∃ n, page p n (L n) = [] :=
    ⟨rows.length, (page_eq_nil_iff hp).2 (by rw [hL]; exact Nat.le_mul_of_pos_right _ hp)⟩
  classical
  exact ⟨Nat.find hex, fun k hk ↦ Nat.find_min hex hk, Nat.find_spec hex⟩

/-- The pages that have the row, when there is only one of them. -/
theorem count_pages [BEq α] [LawfulBEq α] {f : ℕ → List α} {n k : ℕ} {x : α} (hk : k < n)
    (h : ∀ j, j ≠ k → x ∉ f j) : ((List.range n).flatMap f).count x = (f k).count x := by
  obtain ⟨m, rfl⟩ := Nat.exists_eq_add_of_lt hk
  have hbefore : ((List.range k).flatMap f).count x = 0 := by
    refine List.count_eq_zero.2 fun hx ↦ ?_
    obtain ⟨j, hj, hx⟩ := List.mem_flatMap.1 hx
    exact h j (List.mem_range.1 hj).ne hx
  have hafter : (((List.range m).map fun j ↦ k + 1 + j).flatMap f).count x = 0 := by
    refine List.count_eq_zero.2 fun hx ↦ ?_
    obtain ⟨j, hj, hx⟩ := List.mem_flatMap.1 hx
    obtain ⟨i, -, rfl⟩ := List.mem_map.1 hj
    exact h _ (by omega) hx
  rw [show k + m + 1 = k + 1 + m by omega, List.range_add, List.range_succ, List.flatMap_append,
    List.flatMap_append, List.count_append, List.count_append, hbefore, hafter,
    List.flatMap_singleton]
  omega

/-- A row on two pages is seen twice. -/
theorem two_le_count_pages [BEq α] [LawfulBEq α] {f : ℕ → List α} {n k : ℕ} {x : α} (hk : k + 1 < n)
    (h : x ∈ f k) (h' : x ∈ f (k + 1)) : 2 ≤ ((List.range n).flatMap f).count x := by
  obtain ⟨m, rfl⟩ := Nat.exists_eq_add_of_lt hk
  rw [show k + 1 + m + 1 = k + 1 + 1 + m by omega, List.range_add, List.range_succ, List.range_succ,
    List.flatMap_append, List.flatMap_append, List.flatMap_append, List.count_append,
    List.count_append, List.count_append, List.flatMap_singleton, List.flatMap_singleton]
  have h₁ := List.count_pos_iff.2 h
  have h₂ := List.count_pos_iff.2 h'
  omega

/-- A row that fits into a page is seen exactly once, whatever the arrangements. -/
theorem Fits.paged [BEq α] [LawfulBEq α] {x : α} (h : Fits key p rows x) (hx : x ∈ rows)
    (hp : 0 < p) (hnd : rows.Nodup) (hL : ∀ k, Arrangement key rows (L k)) {seen : List α}
    (hseen : Paged p L seen) : seen.count x = 1 := by
  obtain ⟨n, -, hempty, rfl⟩ := hseen
  -- the row has one page it is on, in every arrangement
  have hpage : ∀ k, x ∈ page p k (L k) ↔ below key rows x / p = k := by
    intro k
    have hplace : ∀ i, (L k)[i]? = some x → i / p = below key rows x / p := fun i hi ↦ by
      obtain ⟨hbelow, hupTo⟩ := (hL k).place hi
      have h₁ := Nat.div_le_div_right (c := p) hbelow
      have h₂ := Nat.div_le_div_right (c := p) (Nat.le_sub_one_of_lt hupTo)
      exact (h₁.antisymm (h₂.trans_eq h.symm)).symm
    obtain ⟨i, hi⟩ := List.mem_iff_getElem?.1 ((hL k).perm.mem_iff.2 hx)
    rw [mem_page hp]
    constructor
    · rintro ⟨j, hj, rfl⟩
      exact (hplace j hj).symm
    · rintro rfl
      exact ⟨i, hi, hplace i hi⟩
  -- it comes before the first empty one
  have hn : below key rows x / p < n := by
    by_contra hn
    rw [page_eq_nil_iff hp, (hL n).perm.length_eq] at hempty
    have hnil : page p (below key rows x / p) (L (below key rows x / p)) = [] := by
      rw [page_eq_nil_iff hp, (hL _).perm.length_eq]
      exact hempty.trans (Nat.mul_le_mul_right _ (not_lt.1 hn))
    have hmem := (hpage _).2 rfl
    rw [hnil] at hmem
    cases hmem
  rw [count_pages hn fun j hj hmem ↦ hj ((hpage j).1 hmem).symm]
  exact List.count_eq_one_of_mem (nodup_page ((hL _).perm.nodup_iff.2 hnd)) ((hpage _).2 rfl)

/-- A row that has the same key as its neighbour on the other side of a page end may stand on both
sides of it. -/
theorem exists_repeated [BEq α] [LawfulBEq α] {x : α} (h : ¬ Fits key p rows x) (hx : x ∈ rows)
    (hp : 0 < p) (hnd : rows.Nodup) : ∃ L : ℕ → List α, (∀ k, Arrangement key rows (L k)) ∧
      ∀ seen, Paged p L seen → 2 ≤ seen.count x := by
  classical
  obtain ⟨l₀, hl₀⟩ := exists_arrangement key rows
  obtain ⟨i, hi⟩ := List.mem_iff_getElem?.1 (hl₀.perm.mem_iff.2 hx)
  obtain ⟨hbelow, hupTo⟩ := hl₀.place hi
  -- the boundary is the first row of page `k + 1`
  have hle := Nat.div_le_div_right (c := p) (Nat.le_sub_one_of_lt (hbelow.trans_lt hupTo))
  have hpos := (Nat.zero_le _).trans_lt (lt_of_le_of_ne hle h)
  obtain ⟨k, hk⟩ := Nat.exists_eq_succ_of_ne_zero hpos.ne'
  have hstep : (k + 1) * p = k * p + p := Nat.succ_mul k p
  have hlast : (k + 1) * p ≤ upTo key rows x - 1 := by
    rw [← Nat.succ_eq_add_one, ← hk]
    exact Nat.div_mul_le_self _ _
  have hfirst : below key rows x < (k + 1) * p := by
    rw [← Nat.div_lt_iff_lt_mul hp, ← Nat.succ_eq_add_one, ← hk]
    exact lt_of_le_of_ne hle h
  have hlen : upTo key rows x ≤ rows.length := List.countP_le_length
  -- a row between the two places can be exchanged for `x`
  have put : ∀ {l : List α} {j : ℕ}, Arrangement key rows l → below key rows x ≤ j →
      j < upTo key rows x → ∃ l', Arrangement key rows l' ∧ l'[j]? = some x := by
    intro l j hl hj hj'
    have hlt : j < l.length := by
      rw [hl.perm.length_eq]
      omega
    refine ⟨l.map (Equiv.swap x l[j]), hl.swap hx (hl.perm.mem_iff.1 (List.getElem_mem _))
      (hl.key_eq (List.getElem?_eq_getElem hlt) hj hj').symm hnd, ?_⟩
    rw [List.getElem?_map, List.getElem?_eq_getElem hlt, Option.map_some, Equiv.swap_apply_right]
  obtain ⟨l, hl, hxl⟩ := put (j := (k + 1) * p - 1) hl₀ (by omega) (by omega)
  obtain ⟨l', hl', hxl'⟩ := put (j := (k + 1) * p) hl₀ (by omega) (by omega)
  refine ⟨fun j ↦ if j = k + 1 then l' else l, fun j ↦ ?_, ?_⟩
  · dsimp only
    split
    · exact hl'
    · exact hl
  rintro seen ⟨n, -, hempty, rfl⟩
  have hn : k + 1 < n := by
    by_contra hn
    have hlength : (if n = k + 1 then l' else l).length = rows.length := by
      split
      · exact hl'.perm.length_eq
      · exact hl.perm.length_eq
    rw [page_eq_nil_iff hp, hlength] at hempty
    have := Nat.mul_le_mul_right p (not_lt.1 hn)
    omega
  refine two_le_count_pages hn ?_ ?_
  · dsimp only
    rw [if_neg (by omega)]
    exact (mem_page hp).2 ⟨(k + 1) * p - 1, hxl, Nat.div_eq_of_lt_le (by omega) (by omega)⟩
  · dsimp only
    rw [if_pos rfl]
    exact (mem_page hp).2 ⟨(k + 1) * p, hxl', Nat.mul_div_cancel _ hp⟩

end

end Window

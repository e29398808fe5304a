import DbosTransact.Config

/-!
# Masking a URL

What `urlRe` makes of a text. A match is `://user:password@` where the user is not empty and has no
delimiter, colon or `@`, and the password has no delimiter and no `@`. So no match goes beyond an
`@`, and a text can be cut there and before a `://`.

`covers_maskUrl` is about a text with a hole for the password. If the hole is part of a match, from
the mark before it (`Opens`) to the `@` after it (`Closes`), then a password is hidden exactly if it
has no delimiter and no `@` itself: with an `@` the match ends too early, and with a delimiter there
is none. Otherwise a password of digits is always kept.
-/

namespace Dbos

open Pattern

/-! ### The pattern for URLs -/

theorem isUserChar_ne {c : Char} (h : isUserChar c = true) : c ≠ ':' ∧ c ≠ '/' ∧ c ≠ '@' := by
  refine ⟨?_, ?_, ?_⟩ <;>
  · rintro rfl
    exact absurd h (by decide)

theorem isPasswordChar_ne {c : Char} (h : isPasswordChar c = true) : c ≠ '/' ∧ c ≠ '@' := by
  refine ⟨?_, ?_⟩ <;>
  · rintro rfl
    exact absurd h (by decide)

theorem isPasswordChar_of_isUserChar {c : Char} (h : isUserChar c = true) :
    isPasswordChar c = true := by
  simp only [isUserChar, isPasswordChar, Bool.not_eq_true', List.contains_eq_mem,
    decide_eq_false_iff_not] at h ⊢
  exact fun hmem ↦ h (List.mem_append_left [':'] hmem)

theorem proper_urlRe : Proper urlRe where
  separated := ⟨fun _ hc ↦ decide_eq_false (isUserChar_ne hc).1,
    fun _ hc ↦ decide_eq_false (isPasswordChar_ne hc).2, trivial⟩
  begins := ⟨_, _, rfl⟩

/-- The text `://user:password@` -/
def urlText (user password : List Char) : List Char :=
  schemeMark ++ user ++ ':' :: password ++ ['@']

/-- The user and the password of a match of `urlRe`. -/
structure UrlParts (user password : List Char) : Prop where
  user_ne_nil : user ≠ []
  user : ∀ c ∈ user, isUserChar c = true
  password : ∀ c ∈ password, isPasswordChar c = true

theorem reads_urlRe_iff {m : List (List Char)} {r : List Char} :
    Reads urlRe m r ↔ ∃ c u w, UrlParts (c :: u) w ∧
      m = [[':'], ['/'], ['/'], [c], u, [':'], w, ['@']] := by
  constructor
  · intro h
    unfold urlRe at h
    cases h with | one h₁ h =>
    cases h with | one h₂ h =>
    cases h with | one h₃ h =>
    cases h with | one hc h =>
    cases h with | many hu _ h =>
    cases h with | one h₄ h =>
    cases h with | many hw _ h =>
    cases h with | one h₅ h =>
    cases h
    obtain rfl := of_decide_eq_true h₁
    obtain rfl := of_decide_eq_true h₂
    obtain rfl := of_decide_eq_true h₃
    obtain rfl := of_decide_eq_true h₄
    obtain rfl := of_decide_eq_true h₅
    exact ⟨_, _, _, ⟨List.cons_ne_nil _ _, List.forall_mem_cons.2 ⟨hc, hu⟩, hw⟩, rfl⟩
  · rintro ⟨c, u, w, hparts, rfl⟩
    obtain ⟨hc, hu⟩ := List.forall_mem_cons.1 hparts.user
    exact .one rfl (.one rfl (.one rfl (.one hc (.many hu (fun d hd ↦ by cases hd; rfl)
      (.one rfl (.many hparts.password (fun d hd ↦ by cases hd; rfl) (.one rfl (.nil r))))))))

/-- A match at the beginning of a text. -/
theorem exists_urlText {m : List (List Char)} {r : List Char} (h : Reads urlRe m r) :
    ∃ u w, UrlParts u w ∧ m.flatten = urlText u w := by
  obtain ⟨c, u, w, hparts, rfl⟩ := reads_urlRe_iff.1 h
  exact ⟨c :: u, w, hparts, by simp [urlText, schemeMark]⟩

/-- A match is replaced. -/
theorem maskUrl_urlText {u w : List Char} (h : UrlParts u w) (r : List Char) :
    replaceAll urlRe urlMask (urlText u w ++ r) =
      schemeMark ++ u ++ [':', '*', '*', '*', '@'] ++ replaceAll urlRe urlMask r := by
  obtain ⟨c, u, rfl⟩ := List.exists_cons_of_ne_nil h.user_ne_nil
  have hreads : Reads urlRe [[':'], ['/'], ['/'], [c], u, [':'], w, ['@']] r :=
    reads_urlRe_iff.2 ⟨c, u, w, h, rfl⟩
  have heq : replaceAll urlRe urlMask _ = urlMask _ ++ replaceAll urlRe urlMask r :=
    proper_urlRe.replaceAll_reads hreads
  simpa [urlText, schemeMark, urlMask] using heq

/-- A text has no match at its beginning unless it begins so. -/
theorem urlRe_eq_none {s : List Char} (h : ∀ u w r, UrlParts u w → s ≠ urlText u w ++ r) :
    matchAt urlRe s = none := by
  refine proper_urlRe.matchAt_eq_none_iff.2 fun m r hreads heq ↦ ?_
  obtain ⟨u, w, hparts, hflat⟩ := exists_urlText hreads
  exact h u w r hparts (hflat ▸ heq)

theorem maskUrl_cons {c : Char} {s : List Char}
    (h : ∀ u w r, UrlParts u w → c :: s ≠ urlText u w ++ r) :
    replaceAll urlRe urlMask (c :: s) = c :: replaceAll urlRe urlMask s :=
  replaceAll_cons (urlRe_eq_none h)

theorem maskUrl_cons_of_ne {c : Char} {s : List Char} (hc : c ≠ ':') :
    replaceAll urlRe urlMask (c :: s) = c :: replaceAll urlRe urlMask s := by
  refine maskUrl_cons fun u w r _ heq ↦ hc ?_
  exact (List.cons_eq_cons.1 heq).1

/-- Text without a colon is kept. -/
theorem maskUrl_append_of_notMem {v s : List Char} (hv : ':' ∉ v) :
    replaceAll urlRe urlMask (v ++ s) = v ++ replaceAll urlRe urlMask s := by
  induction v with
  | nil => rfl
  | cons c v ih =>
    obtain ⟨hc, hv⟩ := not_or.1 (List.mem_cons.not.1 hv)
    rw [List.cons_append, maskUrl_cons_of_ne (Ne.symm hc), ih hv, List.cons_append]

theorem slash_notMem_urlText {u w : List Char} (h : UrlParts u w) :
    '/' ∉ u ++ ':' :: w ++ ['@'] := by
  simp only [List.mem_append, List.mem_cons, List.not_mem_nil, or_false, not_or]
  exact ⟨⟨fun hu ↦ (isUserChar_ne (h.user _ hu)).2.1 rfl, by decide,
    fun hw ↦ (isPasswordChar_ne (h.password _ hw)).1 rfl⟩, by decide⟩

theorem at_notMem_urlText {u w : List Char} (h : UrlParts u w) :
    '@' ∉ schemeMark ++ u ++ ':' :: w := by
  simp only [schemeMark, List.mem_append, List.mem_cons, List.not_mem_nil, or_false, not_or]
  exact ⟨⟨⟨by decide, by decide, by decide⟩, fun hu ↦ (isUserChar_ne (h.user _ hu)).2.2 rfl⟩,
    by decide, fun hw ↦ (isPasswordChar_ne (h.password _ hw)).2 rfl⟩

/-- Matches that begin before a mark end before it. -/
theorem maskUrl_append_mark (x t : List Char) :
    replaceAll urlRe urlMask (x ++ (schemeMark ++ t)) =
      replaceAll urlRe urlMask x ++ replaceAll urlRe urlMask (schemeMark ++ t) := by
  refine proper_urlRe.replaceAll_append (fun v m r _ hreads _ ↦ reads_urlRe_iff.2
    (reads_urlRe_iff.1 hreads)) fun v m r _ hv hreads heq ↦ ?_
  suffices h : ∃ r', v = m.flatten ++ r' from
    h.imp fun r' hr ↦ ⟨hr, reads_urlRe_iff.2 (reads_urlRe_iff.1 hreads)⟩
  obtain ⟨u, w, hparts, hflat⟩ := exists_urlText hreads
  rw [hflat] at heq ⊢
  rcases List.append_eq_append_iff.1 heq with ⟨a, ha, hrest⟩ | ⟨a, ha, -⟩
  · -- the match takes `a` of the mark and what follows, so `a` is empty
    cases a with
    | nil => exact ⟨[], by rw [ha, List.append_nil, List.append_nil]⟩
    | cons c a =>
      exfalso
      obtain rfl : ':' = c := (List.cons_eq_cons.1 hrest).1
      have hlong : ∃ v', v = schemeMark ++ v' ∧ u ++ ':' :: w ++ ['@'] = v' ++ ':' :: a := by
        rw [urlText, schemeMark] at ha
        match v, hv, ha with
        | [d], _, ha => simp at ha
        | [d, e], _, ha => simp at ha
        | d :: e :: f :: v', _, ha =>
          simp only [List.cons_append, List.nil_append, List.cons.injEq] at ha
          obtain ⟨rfl, rfl, rfl, ha⟩ := ha
          exact ⟨v', rfl, by simpa using ha⟩
      obtain ⟨v', -, hv'⟩ := hlong
      cases a with
      | nil =>
        exact absurd (List.append_singleton_inj.1 hv').2 (by decide)
      | cons e a =>
        obtain rfl : '/' = e := (List.cons_eq_cons.1 (List.cons_eq_cons.1 hrest).2).1
        refine slash_notMem_urlText hparts ?_
        rw [hv']
        simp
  · exact ⟨a, ha⟩

/-- Matches that begin before an `@` end with it at the latest. -/
theorem maskUrl_append_at (x t : List Char) :
    replaceAll urlRe urlMask (x ++ '@' :: t) =
      replaceAll urlRe urlMask (x ++ ['@']) ++ replaceAll urlRe urlMask t := by
  rw [show x ++ '@' :: t = x ++ ['@'] ++ t by simp]
  refine proper_urlRe.replaceAll_append (fun v m r _ hreads _ ↦ reads_urlRe_iff.2
    (reads_urlRe_iff.1 hreads)) fun v m r hsuffix hv hreads heq ↦ ?_
  suffices h : ∃ r', v = m.flatten ++ r' from
    h.imp fun r' hr ↦ ⟨hr, reads_urlRe_iff.2 (reads_urlRe_iff.1 hreads)⟩
  obtain ⟨u, w, hparts, hflat⟩ := exists_urlText hreads
  rw [hflat] at heq ⊢
  have hat : '@' ∈ v := by
    obtain ⟨x', hx'⟩ := hsuffix
    have hlast : v.getLast? = some '@' := by
      rw [← List.getLast?_append_of_ne_nil x' hv, hx', List.getLast?_concat]
    exact List.mem_of_getLast? hlast
  rcases List.append_eq_append_iff.1 heq with ⟨a, ha, hrest⟩ | ⟨a, ha, -⟩
  · rcases List.eq_nil_or_concat a with rfl | ⟨a, c, rfl⟩
    · exact ⟨[], by rw [ha, List.append_nil, List.append_nil]⟩
    · exfalso
      have hfront : schemeMark ++ u ++ ':' :: w = v ++ a := by
        rw [urlText, List.concat_eq_append, ← List.append_assoc] at ha
        exact (List.append_singleton_inj.1 ha).1
      exact at_notMem_urlText hparts (hfront ▸ List.mem_append_left a hat)
  · exact ⟨a, ha⟩

/-- Where two texts leave a class for the first time, they agree if they are the same. -/
theorem append_cons_unique {q : Char → Bool} {l l' s s' : List Char} {c c' : Char}
    (hl : ∀ d ∈ l, q d = true) (hl' : ∀ d ∈ l', q d = true) (hc : q c = false) (hc' : q c' = false)
    (h : l ++ c :: s = l' ++ c' :: s') : l = l' ∧ c = c' ∧ s = s' := by
  induction l generalizing l' with
  | nil =>
    cases l' with
    | nil => exact ⟨rfl, List.cons_eq_cons.1 h⟩
    | cons d l' =>
      obtain rfl : c = d := (List.cons_eq_cons.1 h).1
      exact absurd (hl' c List.mem_cons_self) (by simp [hc])
  | cons d l ih =>
    cases l' with
    | nil =>
      obtain rfl : d = c' := (List.cons_eq_cons.1 h).1
      exact absurd (hl d List.mem_cons_self) (by simp [hc'])
    | cons d' l' =>
      obtain ⟨rfl, htail⟩ := List.cons_eq_cons.1 h
      obtain ⟨rfl, hrest⟩ := ih (fun e he ↦ hl e (List.mem_cons_of_mem d he))
        (fun e he ↦ hl' e (List.mem_cons_of_mem d he)) htail
      exact ⟨rfl, hrest⟩

/-- The first character that is not in a class. -/
theorem exists_first {q : Char → Bool} {l : List Char} (h : ¬ ∀ c ∈ l, q c = true) :
    ∃ l₁ c l₂, l = l₁ ++ c :: l₂ ∧ (∀ d ∈ l₁, q d = true) ∧ q c = false := by
  induction l with
  | nil => exact absurd nofun h
  | cons d l ih =>
    cases hd : q d with
    | false => exact ⟨[], d, l, rfl, nofun, hd⟩
    | true =>
      have hl : ¬ ∀ c ∈ l, q c = true := fun hl ↦ h (List.forall_mem_cons.2 ⟨hd, hl⟩)
      obtain ⟨l₁, c, l₂, rfl, hl₁, hc⟩ := ih hl
      exact ⟨d :: l₁, c, l₂, rfl, List.forall_mem_cons.2 ⟨hd, hl₁⟩, hc⟩

/-- Text without a slash is kept up to the next character: a match that begins in it begins with its
last character. -/
theorem exists_maskUrl_append {w t : List Char} {d : Char} (hw : '/' ∉ w) (hd : d ≠ ':') :
    ∃ rest, replaceAll urlRe urlMask (w ++ d :: t) = w ++ d :: rest := by
  induction w with
  | nil => exact ⟨_, maskUrl_cons_of_ne hd⟩
  | cons c w ih =>
    obtain ⟨-, hw⟩ := not_or.1 (List.mem_cons.not.1 hw)
    by_cases hmatch : ∃ u w' r, UrlParts u w' ∧ c :: (w ++ d :: t) = urlText u w' ++ r
    · obtain ⟨u, w', r, hparts, heq⟩ := hmatch
      have htext : urlText u w' ++ r = ':' :: '/' :: '/' :: (u ++ ':' :: w' ++ '@' :: r) := by
        simp [urlText, schemeMark]
      have hmask := maskUrl_urlText hparts r
      rw [htext] at heq
      obtain ⟨rfl, htail⟩ := List.cons_eq_cons.1 heq
      cases w with
      | cons e w =>
        obtain rfl : e = '/' := (List.cons_eq_cons.1 htail).1
        exact absurd (by simp) hw
      | nil =>
        obtain ⟨rfl, rfl⟩ := List.cons_eq_cons.1 htail
        rw [htext] at hmask
        exact ⟨_, hmask⟩
    · obtain ⟨rest, hrest⟩ := ih hw
      refine ⟨rest, ?_⟩
      rw [List.cons_append, maskUrl_cons fun u w' r hparts heq ↦ hmatch ⟨u, w', r, hparts, heq⟩,
        hrest, List.cons_append]

/-- A user and the beginning of a password are kept if there is a delimiter before the next `@`. -/
theorem exists_maskUrl_cut {u w t : List Char} {d : Char} (h : UrlParts u w)
    (hd : isPasswordChar d = false) (hat : d ≠ '@') :
    ∃ rest, replaceAll urlRe urlMask (schemeMark ++ u ++ ':' :: w ++ d :: t) =
      schemeMark ++ u ++ ':' :: w ++ d :: rest := by
  have hcolon : d ≠ ':' := by
    rintro rfl
    exact absurd hd (by decide)
  have hslash : '/' ∉ u ++ ':' :: w := fun hmem ↦
    slash_notMem_urlText h (List.mem_append_left ['@'] hmem)
  obtain ⟨rest, hrest⟩ := exists_maskUrl_append (t := t) hslash hcolon
  refine ⟨rest, ?_⟩
  have hnone : ∀ u' w' r, UrlParts u' w' →
      ':' :: ('/' :: '/' :: (u ++ ':' :: w ++ d :: t)) ≠ urlText u' w' ++ r := by
    intro u' w' r h' heq
    have heq' : u ++ ':' :: (w ++ d :: t) = u' ++ ':' :: (w' ++ '@' :: r) := by
      simpa [urlText, schemeMark] using heq
    obtain ⟨rfl, -, heq'⟩ := append_cons_unique h.user h'.user rfl rfl heq'
    obtain ⟨-, hdat, -⟩ := append_cons_unique h.password h'.password hd rfl heq'
    exact hat hdat
  have hmark : schemeMark ++ u ++ ':' :: w ++ d :: t =
      ':' :: ('/' :: '/' :: (u ++ ':' :: w ++ d :: t)) := by simp [schemeMark]
  rw [hmark, maskUrl_cons hnone, maskUrl_cons_of_ne (by decide), maskUrl_cons_of_ne (by decide),
    hrest]
  simp [schemeMark]

/-! ### A password in a URL -/

/-- Before the password there is a match that has come to the text before the next `@`. -/
def Opens (before : List Char) : Prop :=
  ∃ x u w, UrlParts u w ∧ before = x ++ (schemeMark ++ u ++ ':' :: w)

/-- After the password there is an `@` before any delimiter. -/
def Closes (after : List Char) : Prop :=
  ∃ y z, (∀ c ∈ y, isPasswordChar c = true) ∧ after = y ++ '@' :: z

/-- The password is part of a match. -/
theorem maskUrl_hidden {x u w p y z : List Char} (h : UrlParts u w)
    (hy : ∀ c ∈ y, isPasswordChar c = true) (hp : ∀ c ∈ p, isPasswordChar c = true) :
    replaceAll urlRe urlMask (x ++ (schemeMark ++ u ++ ':' :: w) ++ p ++ (y ++ '@' :: z)) =
      replaceAll urlRe urlMask x ++
        (schemeMark ++ u ++ [':', '*', '*', '*', '@'] ++ replaceAll urlRe urlMask z) := by
  have hparts : UrlParts u (w ++ p ++ y) := by
    refine ⟨h.user_ne_nil, h.user, fun c hc ↦ ?_⟩
    rcases List.mem_append.1 hc with hc | hc
    · rcases List.mem_append.1 hc with hc | hc
      · exact h.password c hc
      · exact hp c hc
    · exact hy c hc
  have htext : x ++ (schemeMark ++ u ++ ':' :: w) ++ p ++ (y ++ '@' :: z) =
      x ++ (schemeMark ++ (u ++ ':' :: (w ++ p ++ y) ++ '@' :: z)) := by simp
  have hmatch : schemeMark ++ (u ++ ':' :: (w ++ p ++ y) ++ '@' :: z) =
      urlText u (w ++ p ++ y) ++ z := by simp [urlText]
  rw [htext, maskUrl_append_mark, hmatch, maskUrl_urlText hparts]

/-- What is masked when a delimiter comes first differs from the masked password. -/
theorem cut_ne_hidden {w rest z : List Char} {d : Char} (hw : ∀ c ∈ w, isPasswordChar c = true)
    (hd : isPasswordChar d = false) (hat : d ≠ '@') :
    w ++ d :: rest ≠ ['*', '*', '*', '@'] ++ z := by
  intro h
  have hstars : ∀ c ∈ ['*', '*', '*'], isPasswordChar c = true :=
    List.all_eq_true.1 rfl
  exact hat (append_cons_unique hw hstars hd rfl h).2.1

/-- The masked text is the one of a hidden password only if the password is hidden. -/
theorem maskUrl_eq_hidden_iff {x u w p y z : List Char} (h : UrlParts u w)
    (hy : ∀ c ∈ y, isPasswordChar c = true) :
    replaceAll urlRe urlMask (x ++ (schemeMark ++ u ++ ':' :: w) ++ p ++ (y ++ '@' :: z)) =
      replaceAll urlRe urlMask x ++
        (schemeMark ++ u ++ [':', '*', '*', '*', '@'] ++ replaceAll urlRe urlMask z) ↔
      ∀ c ∈ p, isPasswordChar c = true := by
  refine ⟨fun heq ↦ ?_, maskUrl_hidden h hy⟩
  by_contra hp
  obtain ⟨p₁, d, p₂, rfl, hp₁, hd⟩ := exists_first hp
  by_cases hat : d = '@'
  · subst hat
    -- the match ends at this `@`, and something is left up to the next one
    have htext : x ++ (schemeMark ++ u ++ ':' :: w) ++ (p₁ ++ '@' :: p₂) ++ (y ++ '@' :: z) =
        x ++ (schemeMark ++ u ++ ':' :: w) ++ p₁ ++ ([] ++ '@' :: (p₂ ++ y ++ '@' :: z)) := by simp
    rw [htext, maskUrl_hidden h (fun _ hc ↦ by cases hc) hp₁, maskUrl_append_at] at heq
    have hlen := congrArg List.length heq
    simp only [List.length_append] at hlen
    have hleft : replaceAll urlRe urlMask (p₂ ++ y ++ ['@']) = [] :=
      List.eq_nil_of_length_eq_zero (by omega)
    rw [proper_urlRe.replaceAll_eq_nil_iff fun m ↦ by simp [urlMask]] at hleft
    simp at hleft
  · have hparts : UrlParts u (w ++ p₁) :=
      ⟨h.user_ne_nil, h.user, List.forall_mem_append.2 ⟨h.password, hp₁⟩⟩
    obtain ⟨rest, hrest⟩ := exists_maskUrl_cut (t := p₂ ++ y ++ '@' :: z) hparts hd hat
    have htext : x ++ (schemeMark ++ u ++ ':' :: w) ++ (p₁ ++ d :: p₂) ++ (y ++ '@' :: z) =
        x ++ (schemeMark ++ (u ++ ':' :: (w ++ p₁) ++ d :: (p₂ ++ y ++ '@' :: z))) := by simp
    rw [htext, maskUrl_append_mark, show schemeMark ++ (u ++ ':' :: (w ++ p₁) ++
      d :: (p₂ ++ y ++ '@' :: z)) = schemeMark ++ u ++ ':' :: (w ++ p₁) ++
      d :: (p₂ ++ y ++ '@' :: z) by simp, hrest] at heq
    have hcut : w ++ p₁ ++ d :: rest = ['*', '*', '*', '@'] ++ replaceAll urlRe urlMask z := by
      simpa using heq
    exact cut_ne_hidden hparts.password hd hat hcut

/-- A password of digits. -/
structure Numeric (p : List Char) : Prop where
  ne_nil : p ≠ []
  digit : ∀ c ∈ p, c.isDigit = true

theorem ne_of_isDigit {c d : Char} (hc : c.isDigit = true) (hd : d.isDigit = false) : c ≠ d := by
  rintro rfl
  rw [hc] at hd
  cases hd

theorem Numeric.notMem {p : List Char} (h : Numeric p) {d : Char} (hd : d.isDigit = false) :
    d ∉ p := fun hmem ↦ ne_of_isDigit (h.digit d hmem) hd rfl

theorem isUserChar_of_isDigit {c : Char} (hc : c.isDigit = true) : isUserChar c = true := by
  simp [isUserChar, ne_of_isDigit hc (show '/'.isDigit = false from rfl),
    ne_of_isDigit hc (show '?'.isDigit = false from rfl),
    ne_of_isDigit hc (show '#'.isDigit = false from rfl),
    ne_of_isDigit hc (show '@'.isDigit = false from rfl),
    ne_of_isDigit hc (show ':'.isDigit = false from rfl)]

/-- A mark that begins before a digit ends before it. -/
theorem exists_of_mark_append {a q s t : List Char} {c : Char} (hq : Numeric q)
    (h : schemeMark ++ t = c :: a ++ (q ++ s)) : ∃ a', c :: a = schemeMark ++ a' := by
  obtain ⟨d, q', rfl⟩ := List.exists_cons_of_ne_nil hq.ne_nil
  have hd : d.isDigit = true := hq.digit d List.mem_cons_self
  match a, h with
  | [], h =>
    simp only [schemeMark, List.cons_append, List.nil_append, List.cons.injEq] at h
    exact absurd h.2.1.symm (ne_of_isDigit hd rfl)
  | [e], h =>
    simp only [schemeMark, List.cons_append, List.nil_append, List.cons.injEq] at h
    exact absurd h.2.2.1.symm (ne_of_isDigit hd rfl)
  | e :: f :: a', h =>
    simp only [schemeMark, List.cons_append, List.nil_append, List.cons.injEq] at h
    obtain ⟨rfl, rfl, rfl, -⟩ := h
    exact ⟨a', rfl⟩

/-- A match that goes across a password of digits: it is part of the user, or of what is masked. -/
theorem across_cases {a b q u w r : List Char} {c : Char} (hq : Numeric q) (hparts : UrlParts u w)
    (h : c :: a ++ (q ++ b) = urlText u w ++ r) :
    (∃ a', c :: a = urlText u w ++ a') ∨
    (∃ a' u' w' z, c :: a = schemeMark ++ a' ∧ b = u' ++ ':' :: w' ++ '@' :: z ∧
      (∀ d ∈ a' ++ u', isUserChar d = true) ∧ ∀ d ∈ w', isPasswordChar d = true) ∨
    (Opens (c :: a) ∧ Closes b) := by
  rcases List.append_eq_append_iff.1 h with ⟨s, hs, hrest⟩ | ⟨a', ha', -⟩
  swap
  · exact Or.inl ⟨a', ha'⟩
  rcases List.eq_nil_or_concat s with rfl | ⟨s, e, rfl⟩
  · exact Or.inl ⟨[], by rw [hs, List.append_nil, List.append_nil]⟩
  -- the `@` of the match is not one of the digits, so it comes after them
  rw [List.concat_eq_append] at hs hrest
  obtain rfl : '@' = e := by
    rw [urlText, ← List.append_assoc] at hs
    exact (List.append_singleton_inj.1 hs).2
  obtain ⟨s', rfl, hb⟩ : ∃ s', s = q ++ s' ∧ b = s' ++ '@' :: r := by
    rw [List.append_assoc] at hrest
    rcases List.append_eq_append_iff.1 hrest with ⟨s', hs', hb⟩ | ⟨s', hs', hb⟩
    · exact ⟨s', hs', hb⟩
    · cases s' with
      | nil => exact ⟨[], by simpa using hs'.symm, by simpa using hb.symm⟩
      | cons d s' =>
        obtain rfl : '@' = d := (List.cons_eq_cons.1 hb).1
        exact absurd (hs' ▸ by simp) (hq.notMem (d := '@') rfl)
  have hmark : schemeMark ++ (u ++ ':' :: w ++ ['@']) = c :: a ++ (q ++ (s' ++ ['@'])) := by
    simpa [urlText] using hs
  obtain ⟨a', ha'⟩ := exists_of_mark_append hq hmark
  have hafter := List.append_cancel_left (hmark.trans (by rw [ha', List.append_assoc]))
  have hbody : u ++ ':' :: w = a' ++ (q ++ s') :=
    (List.append_singleton_inj.1 (by simpa using hafter)).1
  rcases List.append_eq_append_iff.1 hbody with ⟨t, rfl, ht⟩ | ⟨t, rfl, ht⟩
  · cases t with
    | nil =>
      obtain ⟨d, q', rfl⟩ := List.exists_cons_of_ne_nil hq.ne_nil
      obtain rfl : ':' = d := (List.cons_eq_cons.1 ht).1
      exact absurd (hq.digit ':' List.mem_cons_self) (by decide)
    | cons d t =>
      obtain ⟨rfl, rfl⟩ := List.cons_eq_cons.1 ht
      have hw := List.forall_mem_append.1 hparts.password
      refine Or.inr (Or.inr ⟨⟨[], u, t, ⟨hparts.user_ne_nil, hparts.user, hw.1⟩, ?_⟩,
        s', r, (List.forall_mem_append.1 hw.2).2, hb⟩)
      rw [ha', List.nil_append, List.append_assoc]
  · rcases List.append_eq_append_iff.1 ht with ⟨v, rfl, hv⟩ | ⟨v, rfl, hv⟩
    · refine Or.inr (Or.inl ⟨a', v, w, r, ha', by rw [hb, hv], ?_, hparts.password⟩)
      have hu := List.forall_mem_append.1 hparts.user
      exact List.forall_mem_append.2 ⟨hu.1, (List.forall_mem_append.1 hu.2).2⟩
    · cases v with
      | nil =>
        refine Or.inr (Or.inl ⟨a', [], w, r, ha', ?_, ?_, hparts.password⟩)
        · rw [hb, ← List.nil_append s', ← hv]
          rfl
        · rw [List.append_nil]
          exact (List.forall_mem_append.1 hparts.user).1
      | cons d v =>
        obtain rfl : ':' = d := (List.cons_eq_cons.1 hv).1
        exact absurd (by simp) (hq.notMem (d := ':') rfl)

/-- Unless it is part of what is masked, a password of digits is kept as it is. -/
theorem exists_maskUrl_frame {a b : List Char} (h : ¬ (Opens a ∧ Closes b)) :
    ∃ α β, ∀ q, Numeric q → replaceAll urlRe urlMask (a ++ q ++ b) = α ++ q ++ β := by
  induction hn : a.length using Nat.strong_induction_on generalizing a with
  | _ n ih =>
    cases a with
    | nil =>
      refine ⟨[], replaceAll urlRe urlMask b, fun q hq ↦ ?_⟩
      rw [List.nil_append, maskUrl_append_of_notMem (hq.notMem rfl)]
    | cons c a =>
      by_cases hwithin : ∃ u w a', UrlParts u w ∧ c :: a = urlText u w ++ a'
      · obtain ⟨u, w, a', hparts, ha⟩ := hwithin
        have hopens : ¬ (Opens a' ∧ Closes b) := by
          rintro ⟨⟨x, u', w', hparts', rfl⟩, hb⟩
          exact h ⟨⟨urlText u w ++ x, u', w', hparts', by simp [ha]⟩, hb⟩
        have hshort : a'.length < n := by
          have hlen := congrArg List.length ha
          simp only [urlText, schemeMark, List.length_append, List.length_cons] at hlen
          simp only [List.length_cons] at hn
          omega
        obtain ⟨α, β, hframe⟩ := ih _ hshort hopens rfl
        refine ⟨schemeMark ++ u ++ [':', '*', '*', '*', '@'] ++ α, β, fun q hq ↦ ?_⟩
        rw [ha, List.append_assoc, List.append_assoc,
          maskUrl_urlText hparts, ← List.append_assoc a', hframe q hq]
        simp only [List.append_assoc]
      by_cases hacross : ∃ a' u' w' z, c :: a = schemeMark ++ a' ∧ b = u' ++ ':' :: w' ++ '@' :: z ∧
          (∀ d ∈ a' ++ u', isUserChar d = true) ∧ ∀ d ∈ w', isPasswordChar d = true
      · obtain ⟨a', u', w', z, ha, rfl, hu, hw⟩ := hacross
        refine ⟨schemeMark ++ a', u' ++ [':', '*', '*', '*', '@'] ++ replaceAll urlRe urlMask z,
          fun q hq ↦ ?_⟩
        have hparts : UrlParts (a' ++ q ++ u') w' := by
          refine ⟨by simp [hq.ne_nil], fun d hd ↦ ?_, hw⟩
          rcases List.mem_append.1 hd with hd | hd
          · rcases List.mem_append.1 hd with hd | hd
            · exact hu d (List.mem_append_left u' hd)
            · exact isUserChar_of_isDigit (hq.digit d hd)
          · exact hu d (List.mem_append_right a' hd)
        have htext : schemeMark ++ a' ++ q ++ (u' ++ ':' :: w' ++ '@' :: z) =
            urlText (a' ++ q ++ u') w' ++ z := by simp [urlText]
        rw [ha, htext, maskUrl_urlText hparts]
        simp only [List.append_assoc]
      · have hopens : ¬ (Opens a ∧ Closes b) := by
          rintro ⟨⟨x, u, w, hparts, rfl⟩, hb⟩
          exact h ⟨⟨c :: x, u, w, hparts, rfl⟩, hb⟩
        obtain ⟨α, β, hframe⟩ := ih a.length (by simp [← hn]) hopens rfl
        refine ⟨c :: α, β, fun q hq ↦ ?_⟩
        rw [List.cons_append, List.cons_append, maskUrl_cons fun u w r hparts heq ↦ ?_, hframe q hq]
        · rfl
        rcases across_cases hq hparts (by simpa using heq) with ⟨a', ha⟩ | hcross | hmasked
        · exact hwithin ⟨u, w, a', hparts, ha⟩
        · exact hacross hcross
        · exact h hmasked

/-- Two different numbers are among these passwords. -/
def TwoNumbers (S : Set (List Char)) : Prop := ∃ q₁ ∈ S, ∃ q₂ ∈ S, Numeric q₁ ∧ Numeric q₂ ∧ q₁ ≠ q₂

/-- When a text is made of each of these passwords, then all texts are the same if all passwords are
hidden, and only then if two numbers are among them. -/
structure Covers (S : Set (List Char)) (text : List Char → List Char) (hides : List Char → Prop) :
    Prop where
  same : (∀ p ∈ S, hides p) → ∀ p ∈ S, ∀ p' ∈ S, text p = text p'
  hidden : TwoNumbers S → (∀ p ∈ S, ∀ p' ∈ S, text p = text p') → ∀ p ∈ S, hides p

/-- **URLs.** A password is hidden if its place is part of what is masked and it has neither a
delimiter nor an `@` in it. -/
theorem covers_maskUrl (a b : List Char) (S : Set (List Char)) :
    Covers S (fun p ↦ replaceAll urlRe urlMask (a ++ p ++ b))
      fun p ↦ Opens a ∧ Closes b ∧ ∀ c ∈ p, isPasswordChar c = true where
  same hhidden p hp p' hp' := by
    obtain ⟨⟨x, u, w, hparts, rfl⟩, ⟨y, z, hy, rfl⟩, hpw⟩ := hhidden p hp
    obtain ⟨-, -, hpw'⟩ := hhidden p' hp'
    rw [maskUrl_hidden hparts hy hpw, maskUrl_hidden hparts hy hpw']
  hidden := by
    rintro ⟨q₁, h₁, q₂, h₂, hq₁, hq₂, hne⟩ hsame p hp
    by_cases hmasked : Opens a ∧ Closes b
    · obtain ⟨⟨x, u, w, hparts, rfl⟩, y, z, hy, rfl⟩ := hmasked
      refine ⟨⟨x, u, w, hparts, rfl⟩, ⟨y, z, hy, rfl⟩, ?_⟩
      have hdigits : ∀ c ∈ q₁, isPasswordChar c = true := fun c hc ↦
        isPasswordChar_of_isUserChar (isUserChar_of_isDigit (hq₁.digit c hc))
      exact (maskUrl_eq_hidden_iff hparts hy).1
        ((hsame p hp q₁ h₁).trans (maskUrl_hidden hparts hy hdigits))
    · obtain ⟨α, β, hframe⟩ := exists_maskUrl_frame hmasked
      have heq : α ++ q₁ ++ β = α ++ q₂ ++ β :=
        (hframe q₁ hq₁).symm.trans ((hsame q₁ h₁ q₂ h₂).trans (hframe q₂ hq₂))
      exact absurd (List.append_cancel_left (List.append_cancel_right heq)) hne

end Dbos

import SmallLisp.Text.Lowercase

/-!
# Letters with an ASCII lowercase form

A reserved word is recognised by its full lowercase form, but which of the two truth values a word
is, is decided by the case of ASCII letters alone.  The two comparisons agree where it matters:
the only character outside ASCII whose lowercase form is an ASCII letter is the Kelvin sign, which
becomes a `k`, and no truth value has a `k` in it.

So to compare a lowercase form with a name in ASCII is to fold ASCII capitals and the Kelvin sign
(`lowercase_eq_iff`).  The full mapping has two more peculiarities, a form of two characters and a
capital sigma whose form depends on its neighbours (`lowercaseIn`); neither of them ever leads to
an ASCII letter alone.
-/

namespace SmallLisp

/-- The image of a code point is the code point itself, or is found in one of the runs. -/
theorem CaseRun.eq_or_exists_of_map {rs : List CaseRun} {n m : Nat} (h : CaseRun.map rs n = m) :
    n = m ∨ ∃ r ∈ rs, r.first ≤ n ∧ n ≤ r.last ∧ r.image + (n - r.first) = m := by
  induction rs with
  | nil => exact .inl h
  | cons r rs ih =>
    unfold map at h
    split at h
    · exact .inl h
    · next hfirst =>
      split at h
      · next hcovered =>
        exact .inr ⟨r, List.mem_cons_self, Nat.le_of_not_lt hfirst, hcovered.1, h⟩
      · rcases ih h with heq | ⟨s, hs, hn⟩
        · exact .inl heq
        · exact .inr ⟨s, List.mem_cons_of_mem _ hs, hn⟩

/-- Only two runs lead to an ASCII letter: the ASCII capitals, and the Kelvin sign alone. -/
theorem CaseRun.ascii_runs {r : CaseRun} (hr : r ∈ lowercaseRuns) (himage : r.image ≤ 0x7A) :
    r.first = 0x41 ∧ r.last = 0x5A ∧ r.image = 0x61 ∨
      r.first = 0x212A ∧ r.last = 0x212A ∧ r.image = 0x6B := by
  have hall : ∀ r ∈ lowercaseRuns, r.image ≤ 0x7A →
      r.first = 0x41 ∧ r.last = 0x5A ∧ r.image = 0x61 ∨
        r.first = 0x212A ∧ r.last = 0x212A ∧ r.image = 0x6B := by decide +kernel
  exact hall r hr himage

theorem toNat_of_isLower {x : Char} (hx : x.isLower = true) : 0x61 ≤ x.toNat ∧ x.toNat ≤ 0x7A := by
  have hrange : (decide ('a'.val ≤ x.val) && decide (x.val ≤ 'z'.val)) = true := hx
  simpa [UInt32.le_iff_toNat_le] using hrange

theorem toLower_eq_of_toNat_add {c x : Char} (hx : x.isLower = true)
    (h : c.toNat = x.toNat ∨ c.toNat + 0x20 = x.toNat) : c.toLower = x := by
  obtain ⟨hlow, hhigh⟩ := toNat_of_isLower hx
  have hall : ∀ n, n < 128 → ((Char.ofNat n).toLower).toNat =
      if 0x41 ≤ n ∧ n ≤ 0x5A then n + 0x20 else n := by decide +kernel
  have hc := hall c.toNat (by omega)
  rw [Char.ofNat_toNat] at hc
  apply Char.toNat_inj.1
  rw [hc]
  split <;> omega

/-- A character whose lowercase form is an ASCII letter is that letter or its capital, or it is
the Kelvin sign. -/
theorem toLower_eq_of_lowercaseChar {c x : Char} (h : lowercaseChar c = [x])
    (hx : x.isLower = true) : c.toLower = x ∨ c = '\u212A' ∧ x = 'k' := by
  obtain ⟨hlow, hhigh⟩ := toNat_of_isLower hx
  unfold lowercaseChar at h
  split at h
  · simp at h
  · obtain ⟨m, hm⟩ : ∃ m, CaseRun.map lowercaseRuns c.toNat = m := ⟨_, rfl⟩
    rw [hm, List.cons.injEq] at h
    -- A number that is no code point would be read as the null character, which is no letter.
    have hmx : m = x.toNat := by
      by_cases hvalid : m.isValidChar
      · have hm' : (Char.ofNat m).toNat = m := by rw [Char.ofNat, dif_pos hvalid]; rfl
        rw [← hm', h.1]
      · have hx' : x = '\x00' := by rw [← h.1, Char.ofNat, dif_neg hvalid]; rfl
        rw [hx'] at hx
        exact absurd hx (by decide)
    rcases CaseRun.eq_or_exists_of_map hm with heq | ⟨r, hr, hfirst, hlast, himage⟩
    · exact .inl (toLower_eq_of_toNat_add hx (.inl (heq.trans hmx)))
    -- Of all runs only that of the ASCII capitals and that of the Kelvin sign lead to ASCII
    -- letters.
    · rcases CaseRun.ascii_runs hr (by omega) with ⟨h1, h2, h3⟩ | ⟨h1, h2, h3⟩
      · exact .inl (toLower_eq_of_toNat_add hx (.inr (by omega)))
      · refine .inr ⟨?_, ?_⟩
        · apply Char.toNat_inj.1
          show c.toNat = 0x212A
          omega
        · apply Char.toNat_inj.1
          show x.toNat = 0x6B
          omega

/-- The letter that a character counts as where a name in ASCII is looked for: small for an ASCII
capital, and a `k` for the Kelvin sign. -/
def foldChar (c : Char) : Char := if c = '\u212A' then 'k' else c.toLower

theorem foldChar_of_ne {c : Char} (h : c ≠ '\u212A') : foldChar c = c.toLower := if_neg h

/-- A character that becomes a small ASCII letter is an ASCII letter. -/
theorem isAlpha_of_toLower {c x : Char} (hx : x.isLower = true) (h : c.toLower = x) :
    c.isAlpha = true := by
  show (c.isUpper || c.isLower) = true
  unfold Char.toLower at h
  split at h
  · next hupper =>
    rw [Bool.or_eq_true]
    exact .inl (decide_eq_true hupper)
  · rw [h, hx, Bool.or_true]

theorem toNat_lt_of_isAlpha {c : Char} (h : c.isAlpha = true) : c.toNat < 128 := by
  have hrange : (decide ('A'.val ≤ c.val ∧ c.val ≤ 'Z'.val) ||
      decide ('a'.val ≤ c.val) && decide (c.val ≤ 'z'.val)) = true := h
  simp only [Bool.or_eq_true, Bool.and_eq_true, decide_eq_true_eq,
    UInt32.le_iff_toNat_le] at hrange
  show c.val.toNat < 128
  rcases hrange with ⟨-, hc⟩ | ⟨-, hc⟩
  · exact Nat.lt_of_le_of_lt hc (by decide)
  · exact Nat.lt_of_le_of_lt hc (by decide)

theorem isAlpha_or_eq_of_foldChar {c x : Char} (hx : x.isLower = true) (h : foldChar c = x) :
    c.isAlpha = true ∨ c = '\u212A' := by
  by_cases hc : c = '\u212A'
  · exact .inr hc
  · rw [foldChar_of_ne hc] at h
    exact .inl (isAlpha_of_toLower hx h)

/-- The characters whose lowercase form is a given small ASCII letter are the ones that count as
that letter. -/
theorem lowercaseChar_eq_singleton_iff {c x : Char} (hx : x.isLower = true) :
    lowercaseChar c = [x] ↔ foldChar c = x := by
  by_cases hc : c = '\u212A'
  · subst hc
    have hform : lowercaseChar '\u212A' = ['k'] := by decide +kernel
    simp [hform, foldChar]
  · rw [foldChar_of_ne hc]
    constructor
    · intro h
      exact (toLower_eq_of_lowercaseChar h hx).resolve_right fun hkelvin => hc hkelvin.1
    · rintro rfl
      -- Of the characters that are left only ASCII letters count as one.
      have hascii : ∀ n, n < 128 →
          lowercaseChar (Char.ofNat n) = [(Char.ofNat n).toLower] := by decide +kernel
      have hform := hascii c.toNat (toNat_lt_of_isAlpha (isAlpha_of_toLower hx rfl))
      rwa [Char.ofNat_toNat] at hform

/-! ## Capitals whose form depends on what is around them -/

/-- The lowercase form of a character, where a capital sigma has one form at the end of a word and
another one elsewhere. -/
def lowercaseForm (final : Bool) (c : Char) : List Char :=
  if c = '\u03A3' then [if final then '\u03C2' else '\u03C3'] else lowercaseChar c

/-- The lowercase form of what stands behind `before`, of which the nearest character is the first.
What is in front of a capital sigma and what is behind it decide whether it is final. -/
def lowercaseBehind (isFinal : List Char → List Char → Bool) : List Char → List Char → List Char
  | _, [] => []
  | before, c :: rest =>
    lowercaseForm (isFinal before rest) c ++ lowercaseBehind isFinal (c :: before) rest

/-- **The lowercase form of a text by the full mapping**, for any rule on which sigma is final. -/
def lowercaseIn (isFinal : List Char → List Char → Bool) (text : List Char) : List Char :=
  lowercaseBehind isFinal [] text

theorem lowercaseForm_false (c : Char) : lowercaseForm false c = lowercaseChar c := by
  unfold lowercaseForm
  split
  · next hc =>
    subst hc
    decide +kernel
  · rfl

/-- Without a final sigma the characters have their forms one by one. -/
theorem lowercaseIn_never (text : List Char) :
    lowercaseIn (fun _ _ => false) text = lowercase text := by
  have hall : ∀ before, lowercaseBehind (fun _ _ => false) before text = lowercase text := by
    induction text with
    | nil => exact fun _ => rfl
    | cons c rest ih =>
      intro before
      rw [lowercaseBehind, lowercaseForm_false, ih, lowercase_cons]
  exact hall []

/-- A form is one character, or the one of two characters. -/
theorem lowercaseForm_cases (final : Bool) (c : Char) :
    (∃ y, lowercaseForm final c = [y]) ∨ lowercaseForm final c = ['i', '\u0307'] := by
  unfold lowercaseForm lowercaseChar
  split
  · exact .inl ⟨_, rfl⟩
  · split
    · exact .inr rfl
    · exact .inl ⟨_, rfl⟩

theorem lowercaseForm_eq_singleton_iff (final : Bool) {c x : Char} (hx : x.isLower = true) :
    lowercaseForm final c = [x] ↔ foldChar c = x := by
  unfold lowercaseForm
  split
  · next hc =>
    subst hc
    have hfold : foldChar '\u03A3' = '\u03A3' := by decide
    rw [hfold, List.cons.injEq]
    constructor
    · rintro ⟨rfl, -⟩
      cases final <;> exact absurd hx (by decide)
    · rintro rfl
      exact absurd hx (by decide)
  · exact lowercaseChar_eq_singleton_iff hx

/-- A form of two characters begins no name of small ASCII letters. -/
theorem lowercaseForm_append_eq_cons_iff {final : Bool} {c x : Char} {rest name : List Char}
    (hname : (x :: name).all Char.isLower = true) :
    lowercaseForm final c ++ rest = x :: name ↔ foldChar c = x ∧ rest = name := by
  rw [List.all_cons, Bool.and_eq_true] at hname
  rw [← lowercaseForm_eq_singleton_iff final hname.1]
  rcases lowercaseForm_cases final c with ⟨y, hform⟩ | hform
  · simp [hform]
  · rw [hform]
    constructor
    · intro h
      simp only [List.cons_append, List.nil_append, List.cons.injEq] at h
      rw [← h.2, List.all_cons] at hname
      exact absurd hname.2 (by simp)
    · rintro ⟨h, -⟩
      cases h

/-- The lowercase form of a text is a given name of small ASCII letters if the text counts as that
name, and only then.  Which sigma is final makes no difference. -/
theorem lowercaseBehind_eq_iff {isFinal : List Char → List Char → Bool}
    {before text name : List Char} (hname : name.all Char.isLower = true) :
    lowercaseBehind isFinal before text = name ↔ text.map foldChar = name := by
  induction text generalizing before name with
  | nil => rfl
  | cons c rest ih =>
    rw [lowercaseBehind, List.map_cons]
    cases name with
    | nil =>
      have hform : lowercaseForm (isFinal before rest) c ≠ [] := by
        rcases lowercaseForm_cases (isFinal before rest) c with ⟨y, hform⟩ | hform <;> simp [hform]
      simp [hform]
    | cons x name =>
      have hlater : name.all Char.isLower = true := by
        rw [List.all_cons, Bool.and_eq_true] at hname
        exact hname.2
      rw [lowercaseForm_append_eq_cons_iff hname, ih hlater, List.cons.injEq]

theorem lowercaseIn_eq_iff {isFinal : List Char → List Char → Bool} {text name : List Char}
    (hname : name.all Char.isLower = true) :
    lowercaseIn isFinal text = name ↔ text.map foldChar = name := lowercaseBehind_eq_iff hname

theorem lowercase_eq_iff {text name : List Char} (hname : name.all Char.isLower = true) :
    lowercase text = name ↔ text.map foldChar = name := by
  rw [← lowercaseIn_never, lowercaseIn_eq_iff hname]

/-- Where no `k` is in a name of small ASCII letters, the comparison of lowercase forms is one of
ASCII letters. -/
theorem map_toLower_eq_of_lowercase {letters word : List Char} (h : lowercase letters = word)
    (hword : word.all Char.isLower = true) (hk : 'k' ∉ word) : letters.map Char.toLower = word := by
  have hfold := (lowercase_eq_iff hword).1 h
  rw [← hfold]
  refine List.map_congr_left fun c hc => (foldChar_of_ne ?_).symm
  rintro rfl
  exact hk (hfold ▸ List.mem_map_of_mem hc)

end SmallLisp

import SmallLisp.Proofs.NumberValues
import SmallLisp.Proofs.Tiling

/-!
# Which words are reserved

Three comparisons take part in telling what a word is.  The table of reserved words is searched for
the full lowercase form of the word; a truth value is told from the other by the case of ASCII
letters; and nothing but its letters is kept of an identifier.

All three come to the same.  A name is found exactly if the word counts as that name with ASCII
capitals made small and a Kelvin sign taken for a `k` (`TokenKind.ofWord?_eq_some_iff`), so no
spelling of a reserved word gets past the table, and none is taken for another one.
-/

namespace SmallLisp

/-! ## The table -/

namespace TokenKind

/-- The kind that a name has in the table of reserved words. -/
def ofName? (name : List Char) : Option TokenKind :=
  (reservedWords.find? fun entry => entry.1.toList == name).map Prod.snd

/-- The table has every name once. -/
theorem eq_of_mem_reservedWords {name : String} {kind kind' : TokenKind}
    (h : (name, kind) ∈ reservedWords) (h' : (name, kind') ∈ reservedWords) : kind = kind' := by
  -- The table is searched from its beginning, so no name may be in it with two kinds.
  have hall : ∀ a ∈ reservedWords, ∀ b ∈ reservedWords, a.1 = b.1 → a.2 = b.2 := by
    decide +kernel
  exact hall _ h _ h' rfl

theorem ofName?_eq_some_iff {name : List Char} {kind : TokenKind} :
    ofName? name = some kind ↔ ∃ s, (s, kind) ∈ reservedWords ∧ name = s.toList := by
  constructor
  · intro h
    obtain ⟨⟨s, kind'⟩, hfind, rfl⟩ := Option.map_eq_some_iff.1 h
    have hname := List.find?_some hfind
    rw [beq_iff_eq] at hname
    exact ⟨s, List.mem_of_find?_eq_some hfind, hname.symm⟩
  · rintro ⟨s, hs, rfl⟩
    cases hfind : reservedWords.find? fun entry => entry.1.toList == s.toList with
    | none => exact absurd (List.find?_eq_none.1 hfind _ hs) (by simp)
    | some entry =>
      obtain ⟨s', kind'⟩ := entry
      have hname := List.find?_some hfind
      rw [beq_iff_eq] at hname
      obtain rfl := String.toList_inj.1 hname
      rw [ofName?, hfind, Option.map_some,
        eq_of_mem_reservedWords (List.mem_of_find?_eq_some hfind) hs]

/-- The names in the table are made of small ASCII letters. -/
theorem all_isLower_of_mem_reservedWords {name : String} {kind : TokenKind}
    (h : (name, kind) ∈ reservedWords) : name.toList.all Char.isLower = true := by
  have hall : ∀ entry ∈ reservedWords, entry.1.toList.all Char.isLower = true := by
    decide +kernel
  exact hall _ h

/-- The lowercase form of a word is found if the word counts as the name. -/
theorem ofName?_lowercaseIn_eq_some_iff {isFinal : List Char → List Char → Bool}
    {word : List Char} {kind : TokenKind} :
    ofName? (lowercaseIn isFinal word) = some kind ↔
      ∃ name, (name, kind) ∈ reservedWords ∧ word.map foldChar = name.toList := by
  rw [ofName?_eq_some_iff]
  refine exists_congr fun name => and_congr_right fun hname => ?_
  exact lowercaseIn_eq_iff (all_isLower_of_mem_reservedWords hname)

/-- Which sigma is final makes no difference to what is found. -/
theorem ofWord?_eq_ofName? (isFinal : List Char → List Char → Bool) (word : List Char) :
    ofWord? word = ofName? (lowercaseIn isFinal word) := by
  refine Option.ext fun kind => ?_
  have hnever : ofWord? word = ofName? (lowercaseIn (fun _ _ => false) word) := by
    rw [lowercaseIn_never]
    rfl
  rw [hnever, ofName?_lowercaseIn_eq_some_iff, ofName?_lowercaseIn_eq_some_iff]

theorem ofWord?_eq_some_iff {word : List Char} {kind : TokenKind} :
    ofWord? word = some kind ↔
      ∃ name, (name, kind) ∈ reservedWords ∧ word.map foldChar = name.toList := by
  rw [ofWord?_eq_ofName? fun _ _ => false, ofName?_lowercaseIn_eq_some_iff]

/-- No character outside ASCII takes part in a reserved word, but for the Kelvin sign. -/
theorem isAlpha_or_eq_of_ofWord? {word : List Char} {kind : TokenKind}
    (h : ofWord? word = some kind) {c : Char} (hc : c ∈ word) :
    c.isAlpha = true ∨ c = '\u212A' := by
  obtain ⟨name, hname, hfold⟩ := ofWord?_eq_some_iff.1 h
  have hletter : foldChar c ∈ name.toList := hfold ▸ List.mem_map_of_mem hc
  exact isAlpha_or_eq_of_foldChar
    (List.all_eq_true.1 (all_isLower_of_mem_reservedWords hname) _ hletter) rfl

theorem mem_reservedWords_booleanWord (b : Bool) : (booleanWord b, boolean) ∈ reservedWords := by
  cases b <;> decide +kernel

end TokenKind

/-! ## Words as tokens -/

namespace Token

variable {letters : List Char}

/-- A word is a truth value exactly if its lowercase form is the name of that one. -/
theorem ofWord_eq_boolean_iff {b : Bool} :
    ofWord letters = .boolean b ↔ lowercase letters = (booleanWord b).toList := by
  have hof : ∀ b, lowercase letters = (booleanWord b).toList → ofWord letters = .boolean b := by
    intro b hb
    have hkind : TokenKind.ofWord? letters = some .boolean :=
      TokenKind.ofName?_eq_some_iff.2 ⟨_, TokenKind.mem_reservedWords_booleanWord b, hb⟩
    rw [ofWord, hkind]
    simp only [toLower_beq_true_of_lowercase hb]
  constructor
  · intro h
    have hkind : TokenKind.ofWord? letters = some .boolean := by
      unfold ofWord at h
      split at h
      · assumption
      · cases h
      · cases h
    obtain ⟨b', hb'⟩ := TokenKind.exists_lowercase_eq_of_ofWord?_boolean hkind
    have hsame := (hof b' hb').symm.trans h
    cases hsame
    exact hb'
  · exact hof b

/-- A word is an identifier exactly if it is not reserved, and it keeps its letters. -/
theorem ofWord_eq_identifier_iff {name : String} :
    ofWord letters = .identifier name ↔
      name = String.ofList letters ∧ TokenKind.ofWord? letters = none := by
  constructor
  · intro h
    unfold ofWord at h
    split at h
    · cases h
    · next kind hne hkind =>
      rcases TokenKind.eq_boolean_or_keyword_of_ofWord? hkind with rfl | ⟨k, rfl⟩
      · cases h
      · cases h
    · next hnone =>
      cases h
      exact ⟨rfl, hnone⟩
  · rintro ⟨rfl, hnone⟩
    simp [ofWord, hnone]

theorem exists_eq_boolean_of_kind (h : (ofWord letters).kind = .boolean) :
    ∃ b, ofWord letters = .boolean b := by
  unfold ofWord at h ⊢
  split at h
  · exact ⟨_, rfl⟩
  · next hne _ => exact absurd h hne
  · cases h

end Token

/-! ## Words in a text -/

namespace Scanner

variable {d : Dialect} {s : Scanner}

/-- A word behind the blanks is taken as a whole. -/
theorem next_of_isWord (hs : s.ended = false) {letters behind : List Char}
    (hrest : s.skipBlanks.rest = letters ++ behind) (hword : isWord letters = true)
    (hbehind : EndsRun isWordChar behind) :
    (s.next d).1 = .ok ⟨.ofWord letters, s.skipBlanks.position⟩ ∧ (s.next d).2.rest = behind := by
  have hnext := next_eq_next_before (d := d) hs
  rw [hrest, next_before_lexeme (.word hword hbehind) (Token.ofLexeme_of_isWord hword)] at hnext
  rw [hnext]
  exact ⟨rfl, rfl⟩

/-- The name of an identifier is not reserved. -/
theorem ofWord?_eq_none_of_next {name : String} {p : Position}
    (h : (s.next d).1 = .ok ⟨.identifier name, p⟩) : TokenKind.ofWord? name.toList = none := by
  have hnext : s.next d = (.ok ⟨.identifier name, p⟩, (s.next d).2) := Prod.ext h rfl
  have hscanned : (Token.identifier name).Scanned := scanned_of_next hnext (by simp)
  cases hscanned with
  | identifier hword hfree => rwa [String.toList_ofList]

end Scanner

/-- **Reserved words are recognised by folding case**, whatever rule says which sigma is final.

A word is reserved exactly if it is a name in the table once its ASCII capitals are made small and
its Kelvin signs are taken for a `k`, and no other character outside ASCII can be in it.  So a
scanner takes a word for a truth value exactly if its lowercase form is the name of that one, and
never takes a word for an identifier if its lowercase form is in the table. -/
theorem reservedWords_fold_case (isFinal : List Char → List Char → Bool) :
    (∀ word kind, TokenKind.ofWord? word = some kind ↔
        ∃ name, (name, kind) ∈ TokenKind.reservedWords ∧ word.map foldChar = name.toList) ∧
      (∀ word, TokenKind.ofWord? word = TokenKind.ofName? (lowercaseIn isFinal word)) ∧
      (∀ word kind, TokenKind.ofWord? word = some kind →
        ∀ c ∈ word, c.isAlpha = true ∨ c = '\u212A') ∧
      (∀ (d : Dialect) (s : Scanner), s.ended = false → ∀ letters behind,
        s.skipBlanks.rest = letters ++ behind → isWord letters = true →
        EndsRun isWordChar behind →
        ∃ t : Token, (s.next d).1 = .ok ⟨t, s.skipBlanks.position⟩ ∧ (s.next d).2.rest = behind ∧
          (t.kind = .boolean → ∃ b, t = .boolean b) ∧
          (∀ b, t = .boolean b ↔ lowercaseIn isFinal letters = (booleanWord b).toList) ∧
          ∀ name, t = .identifier name ↔
            name = String.ofList letters ∧ TokenKind.ofName? (lowercaseIn isFinal letters) = none) ∧
      ∀ (d : Dialect) (s : Scanner) (name : String) (p : Position),
        (s.next d).1 = .ok ⟨.identifier name, p⟩ →
        TokenKind.ofName? (lowercaseIn isFinal name.toList) = none := by
  refine ⟨fun _ _ => TokenKind.ofWord?_eq_some_iff, TokenKind.ofWord?_eq_ofName? isFinal,
    fun _ _ h _ hc => TokenKind.isAlpha_or_eq_of_ofWord? h hc, ?_, ?_⟩
  · intro d s hs letters behind hrest hword hbehind
    obtain ⟨hnext, hlater⟩ := Scanner.next_of_isWord (d := d) hs hrest hword hbehind
    refine ⟨.ofWord letters, hnext, hlater, Token.exists_eq_boolean_of_kind, ?_, ?_⟩
    · intro b
      have hname := TokenKind.all_isLower_of_mem_reservedWords
        (TokenKind.mem_reservedWords_booleanWord b)
      rw [Token.ofWord_eq_boolean_iff, lowercase_eq_iff hname, lowercaseIn_eq_iff hname]
    · intro name
      rw [← TokenKind.ofWord?_eq_ofName?, Token.ofWord_eq_identifier_iff]
  · intro d s name p h
    rw [← TokenKind.ofWord?_eq_ofName?]
    exact Scanner.ofWord?_eq_none_of_next h

/-- A keyword with a Kelvin sign in it, and a truth value in mixed case. -/
theorem reservedWords_fold_case_kelvin :
    TokenKind.ofWord? ['B', 'r', 'E', 'a', '\u212A'] = some (.keyword .breakLoop) ∧
      ((Scanner.ofSource " TruE(").next .strict).1 = .ok ⟨.boolean true, ⟨0, 1⟩⟩ := by
  obtain ⟨hfold, -, -, hscan, -⟩ := reservedWords_fold_case fun _ _ => true
  refine ⟨(hfold _ _).2 ⟨"break", by decide +kernel, by decide⟩, ?_⟩
  obtain ⟨t, hnext, -, -, hboolean, -⟩ := hscan .strict (.ofSource " TruE(") rfl
    "TruE".toList ['('] (by decide) (by decide +kernel) (.cons (by decide +kernel) _)
  rw [hnext, (hboolean true).2 (by decide +kernel)]
  rfl

end SmallLisp

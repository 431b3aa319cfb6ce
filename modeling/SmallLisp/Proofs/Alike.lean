import SmallLisp.Proofs.EarliestError
import SmallLisp.Proofs.WrittenTokens

/-!
# Texts that are read alike

What is read from a text depends on its tokens and not on its layout, and of a token it depends on
its kind, on whether it is the word `quote` or the tick, and on the value of a literal.  A keyword
is read in the same way however it is written.  So two texts with tokens that are alike in this
sense (`Token.Alike`) are read alike: as equal programs, or not at all, and then for the same
reason and because of the same token.

For one token there are two steps.  A keyword may be put under its canonical name before it is read
(`Unfinished.advance_canonical`), and the signs of zeros may be dropped before or afterwards
(`Unfinished.advance_mapReals`).  What is left of alike tokens is the same token
(`Token.Alike.bare_eq`).  Two readers that go along such tokens stay together
(`Unfinished.readFrom_of_bare_eq`).
-/

namespace SmallLisp

/-! ## Tokens that are alike -/

/-- The kinds of tokens that are read as what their literal says. -/
def TokenKind.atoms : List TokenKind := [integer, real, boolean, identifier]

namespace Token

/-- **Tokens that are read in the same way**: of the same kind, the tick told from the word
`quote`, and with equal literals where a literal is what counts.  How a keyword is written is left
out. -/
structure Alike (s t : Token) : Prop where
  kind_eq : s.kind = t.kind
  isQuoteKeyword_eq : s.isQuoteKeyword = t.isQuoteKeyword
  same_of_atom : s.kind ∈ TokenKind.atoms → s.same t = true

/-- The token as far as it is looked at: a keyword under its canonical name, a zero without its
sign. -/
def bare (t : Token) : Token := t.canonical.mapReals Binary64.dropZeroSign

variable {s t : Token}

/-- A token is in canonical spelling, or it is a keyword that is written as a word. -/
theorem canonical_eq_or_eq_word (t : Token) :
    t.canonical = t ∨ ∃ k lexeme, t = word (.keyword k) lexeme := by
  obtain ⟨kind, literal⟩ := t
  unfold canonical
  split
  · next k lexeme hkind hliteral => exact .inr ⟨k, lexeme, by rw [word, ← hkind, ← hliteral]⟩
  · exact .inl rfl

theorem canonical_of_kind_ne_keyword (h : ∀ k, t.kind ≠ .keyword k) : t.canonical = t := by
  rcases t.canonical_eq_or_eq_word with ht | ⟨k, lexeme, rfl⟩
  · exact ht
  · exact absurd rfl (h k)

/-- A keyword in a text is the tick or a word. -/
theorem Scanned.eq_plain_or_word {k : Keyword} (ht : t.Scanned) (hkind : t.kind = .keyword k) :
    t = plain (.keyword .quote) ∨ ∃ lexeme, t = word (.keyword k) lexeme := by
  cases ht with
  | tick => exact .inl rfl
  | keyword hword hkeyword =>
    cases hkind
    exact .inr ⟨_, rfl⟩
  | _ => cases hkind

/-- Layout and punctuation carry nothing. -/
theorem Scanned.eq_plain (ht : t.Scanned) (hkeyword : ∀ k, t.kind ≠ .keyword k)
    (hatom : t.kind ∉ TokenKind.atoms) : t = plain t.kind := by
  cases ht with
  | endLine => rfl
  | opening => rfl
  | closing => rfl
  | tick => rfl
  | keyword => exact absurd rfl (hkeyword _)
  | _ => simp [TokenKind.atoms] at hatom

/-- Alike tokens of texts are the same token in what is looked at. -/
theorem Alike.bare_eq (h : s.Alike t) (hs : s.Scanned) (ht : t.Scanned) : s.bare = t.bare := by
  -- Only the tick and the word `quote` have the kind of a keyword in common, and tokens that are
  -- alike agree on which of the two they are.
  by_cases hkeyword : ∃ k, s.kind = .keyword k
  · obtain ⟨k, hk⟩ := hkeyword
    have hquote := h.isQuoteKeyword_eq
    rcases hs.eq_plain_or_word hk with rfl | ⟨lexeme, rfl⟩
    · rcases ht.eq_plain_or_word (h.kind_eq.symm.trans hk) with rfl | ⟨lexeme', rfl⟩
      · rfl
      · cases hk
        cases hquote
    · rcases ht.eq_plain_or_word (h.kind_eq.symm.trans hk) with rfl | ⟨lexeme', rfl⟩
      · have hkind := h.kind_eq
        cases hkind
        cases hquote
      · rfl
  · have hskeyword : ∀ k, s.kind ≠ .keyword k := fun k hk => hkeyword ⟨k, hk⟩
    have htkeyword : ∀ k, t.kind ≠ .keyword k := h.kind_eq ▸ hskeyword
    rw [bare, bare, canonical_of_kind_ne_keyword hskeyword, canonical_of_kind_ne_keyword htkeyword]
    by_cases hatom : s.kind ∈ TokenKind.atoms
    · exact mapReals_eq_of_same (fun x hx => hs.kind_eq_real hx) (h.same_of_atom hatom)
    · have htatom : t.kind ∉ TokenKind.atoms := h.kind_eq ▸ hatom
      rw [hs.eq_plain hskeyword hatom, ht.eq_plain htkeyword htatom, h.kind_eq]

end Token

/-! ## What a keyword is written as is not looked at -/

namespace Unfinished

variable (rules : Rules)

theorem start_word (doneRev : List Expr) (around : List Waiting) (k : Keyword)
    (lexeme lexeme' : String) :
    start rules doneRev around (.word (.keyword k) lexeme) =
      start rules doneRev around (.word (.keyword k) lexeme') := by
  cases k <;> rfl

theorem advance_word (u : Unfinished) (k : Keyword) (lexeme lexeme' : String) :
    u.advance rules (.word (.keyword k) lexeme) = u.advance rules (.word (.keyword k) lexeme') := by
  have hstart := fun doneRev around => start_word rules doneRev around k lexeme lexeme'
  have hname :
      (Token.word (.keyword k) lexeme).name? = (Token.word (.keyword k) lexeme').name? := by
    cases k <;> rfl
  simp only [advance, move, hstart, hname]
  rfl

/-- A keyword is read in the same way however it is written. -/
theorem advance_canonical (u : Unfinished) (t : Token) :
    u.advance rules t.canonical = u.advance rules t := by
  rcases t.canonical_eq_or_eq_word with ht | ⟨k, lexeme, rfl⟩
  · rw [ht]
  · exact u.advance_word rules k k.word lexeme

/-- Two readers take tokens that are alike together, or refuse them with the same error. -/
theorem map_advance_eq_of_bare_eq {u v : Unfinished} {s t : Token}
    (hread : u.mapReals Binary64.dropZeroSign = v.mapReals Binary64.dropZeroSign)
    (htoken : s.bare = t.bare) :
    (u.advance rules s).map (·.mapReals Binary64.dropZeroSign) =
      (v.advance rules t).map (·.mapReals Binary64.dropZeroSign) := by
  rw [← advance_canonical rules u, ← advance_mapReals, hread, ← Token.bare, htoken, Token.bare,
    advance_mapReals, advance_canonical]

/-! ## Two readers -/

theorem refusalAtEnd_mapReals (f : Binary64 → Binary64) (innermost : Innermost) :
    refusalAtEnd (innermost.mapReals f) = refusalAtEnd innermost := by
  cases innermost with
  | expecting w => cases w <;> rfl
  | _ => rfl

end Unfinished

/-- Answers of a scanner that are read in the same way, wherever they are. -/
inductive Scanner.Result.Alike : Scanner.Result → Scanner.Result → Prop
  | token {s t : Positioned Token} (h : s.value.Alike t.value) : Alike (.ok s) (.ok t)
  | error {e e' : Positioned LexError} (h : e.value = e'.value) : Alike (.error e) (.error e')

/-- Two readings that come to the same, of answers that stand at `ps` and of answers that stand
at `qs`: programs that are equal up to the signs of zeros, or the same error at the same
answer. -/
inductive ReadAlike (ps qs : List Position) :
    Except (Positioned SourceError) Program → Except (Positioned SourceError) Program → Prop
  | ok {p q : Program} (h : Expr.mapRealsAll Binary64.dropZeroSign p.expressions =
      Expr.mapRealsAll Binary64.dropZeroSign q.expressions) : ReadAlike ps qs (.ok p) (.ok q)
  | error {error : SourceError} {position position' : Position} (k : Nat)
      (hp : ps[k]? = some position) (hq : qs[k]? = some position') :
      ReadAlike ps qs (.error ⟨error, position⟩) (.error ⟨error, position'⟩)

theorem ReadAlike.cons {ps qs : List Position}
    {result result' : Except (Positioned SourceError) Program} (h : ReadAlike ps qs result result')
    (p q : Position) : ReadAlike (p :: ps) (q :: qs) result result' := by
  cases h with
  | ok h => exact .ok h
  | error k hp hq => exact .error (k + 1) hp hq

namespace Unfinished

variable {rules : Rules} {u v : Unfinished} {ending ending' : StreamEnd}

theorem conclude_of_alike
    (hread : u.mapReals Binary64.dropZeroSign = v.mapReals Binary64.dropZeroSign)
    (hending : ending.answer.Alike ending'.answer) :
    ReadAlike [ending.position] [ending'.position] (u.conclude ending) (v.conclude ending') := by
  cases ending with
  | failure error =>
    cases ending' with
    | endOfInput position' => cases hending
    | failure error' =>
      cases hending with
      | error h =>
        have hu : u.conclude (.failure error) = .error (error.map .lexical) := by cases u <;> rfl
        have hv : v.conclude (.failure error') = .error (error'.map .lexical) := by cases v <;> rfl
        rw [hu, hv, Positioned.map, Positioned.map, h]
        exact .error 0 rfl rfl
  | endOfInput position =>
    cases ending' with
    | failure error' => cases hending
    | endOfInput position' =>
      -- At the end of the input only the shape of what is unfinished counts, and the reals are no
      -- part of it.
      cases u with
      | topLevel doneRev =>
        cases v with
        | within innermost around doneRev' => cases hread
        | topLevel doneRev' =>
          simp only [mapReals, topLevel.injEq] at hread
          apply ReadAlike.ok
          rw [Expr.mapRealsAll_eq_map, Expr.mapRealsAll_eq_map, List.map_reverse, hread,
            List.map_reverse]
      | within innermost around doneRev =>
        cases v with
        | topLevel doneRev' => cases hread
        | within innermost' around' doneRev' =>
          simp only [mapReals, within.injEq] at hread
          have herror : refusalAtEnd innermost = refusalAtEnd innermost' := by
            rw [← refusalAtEnd_mapReals Binary64.dropZeroSign innermost, hread.1,
              refusalAtEnd_mapReals]
          rw [conclude, conclude, herror]
          exact .error 0 rfl rfl

/-- Two readers stay together, token by token, up to the end or to the token that both
refuse. -/
theorem readFrom_of_bare_eq {ss ts : List (Positioned Token)}
    (hread : u.mapReals Binary64.dropZeroSign = v.mapReals Binary64.dropZeroSign)
    (htokens : List.Forall₂ (fun s t => s.value.bare = t.value.bare) ss ts)
    (hending : ending.answer.Alike ending'.answer) :
    ReadAlike (ss.map (·.position) ++ [ending.position]) (ts.map (·.position) ++ [ending'.position])
      (u.readFrom rules ending ss) (v.readFrom rules ending' ts) := by
  induction htokens generalizing u v with
  | nil => exact conclude_of_alike hread hending
  | @cons s t ss ts hst _ ih =>
    have hadvance := map_advance_eq_of_bare_eq rules hread hst
    rw [readFrom, readFrom]
    -- A refusal comes from one error for both, and it stands at the heads of the two lists of
    -- places.
    cases hu : u.advance rules s.value with
    | error error =>
      rw [hu] at hadvance
      cases hv : v.advance rules t.value with
      | ok v' => rw [hv] at hadvance; cases hadvance
      | error error' =>
        rw [hv] at hadvance
        cases hadvance
        exact .error 0 rfl rfl
    | ok u' =>
      rw [hu] at hadvance
      cases hv : v.advance rules t.value with
      | error error' => rw [hv] at hadvance; cases hadvance
      | ok v' =>
        rw [hv] at hadvance
        exact (ih (Except.ok.inj hadvance)).cons s.position t.position

end Unfinished

/-! ## Two texts -/

/-- Lists that agree all along agree up to their last elements, and in these. -/
theorem forall₂_append_singleton {α β : Type} {R : α → β → Prop} {as : List α} {bs : List β}
    {a : α} {b : β} (h : List.Forall₂ R (as ++ [a]) (bs ++ [b])) :
    List.Forall₂ R as bs ∧ R a b := by
  have hreverse := List.forall₂_reverse_iff.2 h
  rw [List.reverse_append, List.reverse_append] at hreverse
  cases hreverse with
  | cons hab hrest => exact ⟨List.forall₂_reverse_iff.1 hrest, hab⟩

namespace TokenStream

theorem listing_false (stream : TokenStream) :
    stream.listing false = stream.significant.map .ok ++ [stream.ending.answer] :=
  listing_eq false stream

theorem forall₂_bare_of_alike {d d' : Dialect} {source source' : String}
    (h : List.Forall₂ Scanner.Result.Alike
      ((ofSource d source).significant.map .ok) ((ofSource d' source').significant.map .ok)) :
    List.Forall₂ (fun s t => s.value.bare = t.value.bare)
      (ofSource d source).significant (ofSource d' source').significant := by
  rw [List.forall₂_map_left_iff, List.forall₂_map_right_iff, List.forall₂_iff_zip] at h
  refine List.forall₂_iff_zip.2 ⟨h.1, ?_⟩
  intro s t hst
  obtain ⟨hs, ht⟩ := List.of_mem_zip hst
  have hscanned := scanned_of_mem_significant (List.mem_map_of_mem hs)
  have hscanned' := scanned_of_mem_significant (List.mem_map_of_mem ht)
  cases h.2 hst with
  | token halike => exact halike.bare_eq hscanned hscanned'

end TokenStream

theorem readAlike_of_alike {d : Dialect} {source source' : String}
    (h : List.Forall₂ Scanner.Result.Alike ((TokenStream.ofSource d source).listing false)
      ((TokenStream.ofSource d source').listing false)) :
    ReadAlike (((TokenStream.ofSource d source).listing false).map Scanner.Result.position)
      (((TokenStream.ofSource d source').listing false).map Scanner.Result.position)
      (readProgram d source) (readProgram d source') := by
  rw [TokenStream.listing_false, TokenStream.listing_false] at h
  obtain ⟨htokens, hending⟩ := forall₂_append_singleton h
  rw [readProgram_eq_readFrom, readProgram_eq_readFrom, TokenStream.map_position_listing,
    TokenStream.map_position_listing]
  exact Unfinished.readFrom_of_bare_eq rfl (TokenStream.forall₂_bare_of_alike htokens) hending

/-- **Layout and the case of keywords do not matter.**  If the tokens of two texts that are not
ends of lines are alike, and the texts end alike, then either both are read, as equal programs, or
both fail with the same error, at the answers with the same number.  The places and the ends of
lines in between may be any. -/
theorem readProgram_alike {d : Dialect} {source source' : String}
    (h : List.Forall₂ Scanner.Result.Alike ((TokenStream.ofSource d source).listing false)
      ((TokenStream.ofSource d source').listing false)) :
    (∃ p q, readProgram d source = .ok p ∧ readProgram d source' = .ok q ∧ p.same q = true) ∨
      ∃ (k : Nat) (error : SourceError) (position position' : Position),
        readProgram d source = .error ⟨error, position⟩ ∧
        readProgram d source' = .error ⟨error, position'⟩ ∧
        (∀ j : Nat, ((TokenStream.ofSource d source).listing false)[j]?.map
          Scanner.Result.position = some position ↔ j = k) ∧
        ∀ j : Nat, ((TokenStream.ofSource d source').listing false)[j]?.map
          Scanner.Result.position = some position' ↔ j = k := by
  have halike := readAlike_of_alike h
  generalize hresult : readProgram d source = result at halike
  generalize readProgram d source' = result' at halike
  cases halike with
  | @ok p q hpq =>
    obtain ⟨-, hnan, -⟩ := isRegularAll_of_readProgram hresult
    exact .inl ⟨p, q, rfl, rfl, Expr.sameAll_of_mapRealsAll_eq hnan hpq⟩
  | @error error position position' k hp hq =>
    rw [List.getElem?_map] at hp hq
    -- No two answers stand at the same place, so the place of the error determines the answer.
    have hk := getElem?_map_position_iff (TokenStream.pairwise_position_listing d source false) hp
    have hk' :=
      getElem?_map_position_iff (TokenStream.pairwise_position_listing d source' false) hq
    exact .inr ⟨k, error, position, position', rfl, rfl, hk, hk'⟩

/-- A number where a name should be, behind a keyword in capitals and a line break. -/
theorem readProgram_alike_setq :
    List.Forall₂ Scanner.Result.Alike
        ((TokenStream.ofSource .standard "(SETQ\n 1 2").listing false)
        ((TokenStream.ofSource .standard "(setq 1 2").listing false) ∧
      readProgram .standard "(SETQ\n 1 2" =
        .error ⟨.grammatical (.expectedName .integer), ⟨1, 1⟩⟩ ∧
      readProgram .standard "(setq 1 2" =
        .error ⟨.grammatical (.expectedName .integer), ⟨0, 6⟩⟩ := by
  have hstream : TokenStream.ofSource .standard "(SETQ\n 1 2" =
      ⟨[⟨.opening, ⟨0, 0⟩⟩, ⟨.word (.keyword .setq) "SETQ", ⟨0, 1⟩⟩, ⟨.plain .endLine, ⟨0, 5⟩⟩,
        ⟨.number (.integer 1), ⟨1, 1⟩⟩, ⟨.number (.integer 2), ⟨1, 3⟩⟩],
        .endOfInput ⟨1, 4⟩⟩ := by decide +kernel
  have hother : TokenStream.ofSource .standard "(setq 1 2" =
      ⟨[⟨.opening, ⟨0, 0⟩⟩, ⟨.word (.keyword .setq) "setq", ⟨0, 1⟩⟩, ⟨.number (.integer 1), ⟨0, 6⟩⟩,
        ⟨.number (.integer 2), ⟨0, 8⟩⟩], .endOfInput ⟨0, 9⟩⟩ := by decide +kernel
  have halike : List.Forall₂ Scanner.Result.Alike
      ((TokenStream.ofSource .standard "(SETQ\n 1 2").listing false)
      ((TokenStream.ofSource .standard "(setq 1 2").listing false) := by
    rw [hstream, hother]
    have hopening : Token.opening.Alike .opening := ⟨rfl, rfl, by decide⟩
    have hsetq : (Token.word (.keyword .setq) "SETQ").Alike (.word (.keyword .setq) "setq") :=
      ⟨rfl, rfl, by decide⟩
    have hnumber : ∀ n, (Token.number (.integer n)).Alike (.number (.integer n)) :=
      fun n => ⟨rfl, rfl, fun _ => by simp [Token.same, Token.number, Literal.same, Number.same]⟩
    have hend : (Token.plain .eof).Alike (.plain .eof) := ⟨rfl, rfl, by decide⟩
    exact .cons (.token hopening) (.cons (.token hsetq) (.cons (.token (hnumber 1))
      (.cons (.token (hnumber 2)) (.cons (.token hend) .nil))))
  have hread : readProgram .standard "(SETQ\n 1 2" =
      .error ⟨.grammatical (.expectedName .integer), ⟨1, 1⟩⟩ := by
    rw [readProgram_eq_readFrom, hstream]
    rfl
  rcases readProgram_alike halike with ⟨p, q, hp, -, -⟩ |
    ⟨k, error, position, position', herror, herror', hk, hk'⟩
  · rw [hread] at hp
    cases hp
  · rw [hread] at herror
    cases herror
    rw [hstream] at hk
    rw [hother] at hk'
    obtain rfl : 2 = k := (hk 2).1 rfl
    obtain rfl : ⟨0, 6⟩ = position' := Option.some.inj ((hk' 2).2 rfl)
    exact ⟨halike, hread, herror'⟩

end SmallLisp

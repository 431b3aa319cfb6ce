import SmallLisp.Proofs.Parentheses
import SmallLisp.Proofs.TextChars

/-!
# Listings show the nesting of their tokens

The indentation of a line is what can be seen of it: the spaces that it begins with.  Behind them
stands the place of a token or its label, and neither begins with a space; nor is there an end of a
line anywhere in what is shown of a token, whatever letters it has.  So the lines of a listing, and
their indentations, are those of its tokens, one by one.
-/

namespace SmallLisp
namespace Report

/-- The number of spaces that a text begins with. -/
def leadingSpaces (text : String) : Nat := (text.toList.takeWhile (· == ' ')).length

/-- What is shown of a token that was read: a character for each sign, the end of a line as a
backslash and an `n`, a word as it was written, and a number by its value. -/
inductive IsTextOf : Token → String → Prop
  | opening : IsTextOf ⟨.openParen, none⟩ "("
  | closing : IsTextOf ⟨.closeParen, none⟩ ")"
  | tick : IsTextOf ⟨.keyword .quote, none⟩ "'"
  | endLine : IsTextOf ⟨.endLine, none⟩ "\\n"
  | boolean (b : Bool) :
      IsTextOf ⟨.boolean, some (.boolean b)⟩ (if b then "true" else "false")
  | word (kind : TokenKind) (written : String) : IsTextOf ⟨kind, some (.text written)⟩ written
  | number (kind : TokenKind) (n : Number) : IsTextOf ⟨kind, some (.number n)⟩ n.text

/-- **The line of a token**: one line, with the place of the token if it is asked for, the name of
its kind and its text, all behind some spaces. -/
structure IsLineOf (showsPositions : Bool) (t : Positioned Token) (text : String) : Prop where
  newline_not_mem : '\n' ∉ text.toList
  return_not_mem : '\r' ∉ text.toList
  exists_eq : ∃ shown, IsTextOf t.value shown ∧
    text.toList = List.replicate (leadingSpaces text) ' ' ++
      ((if showsPositions then
          "@" ++ toString (t.position.line + 1) ++ "." ++ toString t.position.column ++ " "
        else "") ++ t.value.kind.label ++ " " ++ shown).toList

theorem isTextOf_text {t : Token} (h : t.Scanned) : IsTextOf t t.text := by
  cases h with
  | endLine => exact .endLine
  | opening => exact .opening
  | closing => exact .closing
  | tick => exact .tick
  | boolean b => exact .boolean b
  | identifier hword hfree => exact .word _ _
  | keyword hword hkeyword => exact .word _ _
  | integer n => exact .number _ _
  | real hx => exact .number _ _

theorem exists_label_eq (kind : TokenKind) :
    ∃ first rest, kind.label.toList = first :: rest ∧ first ≠ ' ' := by
  cases kind with
  | keyword k => cases k <;> exact ⟨_, _, rfl, by decide⟩
  | _ => exact ⟨_, _, rfl, by decide⟩

theorem toList_tokenLine (showsPositions : Bool) (indent : Nat) (t : Positioned Token) :
    (tokenLine showsPositions indent t).toList =
      List.replicate (2 * indent) ' ' ++ (tokenLine showsPositions 0 t).toList := by
  simp [tokenLine]

/-- A line that is not indented. -/
theorem tokenLine_zero (showsPositions : Bool) (t : Positioned Token) :
    tokenLine showsPositions 0 t =
      (if showsPositions then
          "@" ++ toString (t.position.line + 1) ++ "." ++ toString t.position.column ++ " "
        else "") ++ t.value.kind.label ++ " " ++ t.value.text := by
  have hplace : t.position.text =
      "@" ++ toString (t.position.line + 1) ++ "." ++ toString t.position.column := rfl
  simp [tokenLine, hplace]

/-- What is shown of a token does not begin with a space. -/
theorem takeWhile_tokenLine (showsPositions : Bool) (t : Positioned Token) :
    (tokenLine showsPositions 0 t).toList.takeWhile (· == ' ') = [] := by
  rw [tokenLine_zero]
  cases showsPositions with
  | true => simp
  | false =>
    obtain ⟨first, rest, hlabel, hfirst⟩ := exists_label_eq t.value.kind
    simp [hlabel, hfirst]

theorem leadingSpaces_tokenLine (showsPositions : Bool) (indent : Nat) (t : Positioned Token) :
    leadingSpaces (tokenLine showsPositions indent t) = 2 * indent := by
  have hspaces : ∀ c ∈ List.replicate (2 * indent) ' ', (c == ' ') = true := fun c hc => by
    rw [List.eq_of_mem_replicate hc]
    rfl
  rw [leadingSpaces, toList_tokenLine, List.takeWhile_append_of_pos hspaces, takeWhile_tokenLine,
    List.append_nil, List.length_replicate]

theorem isLineOf_tokenLine (showsPositions : Bool) (indent : Nat) {t : Positioned Token}
    (h : t.value.Scanned) : IsLineOf showsPositions t (tokenLine showsPositions indent t) where
  newline_not_mem := IsForeign.newline.not_mem_tokenLine showsPositions indent h
  return_not_mem := IsForeign.carriageReturn.not_mem_tokenLine showsPositions indent h
  exists_eq := by
    refine ⟨t.value.text, isTextOf_text h, ?_⟩
    rw [leadingSpaces_tokenLine, toList_tokenLine, tokenLine_zero]

/-! ## The lines of a listing, and their number -/

/-- The counter holds the number of things, as long as there are not too many. -/
theorem toInt_counter {n : Nat} (h : n < 2 ^ 31) : (counter n).toInt = n :=
  Int32.toInt_ofNat_of_lt h

theorem toString_counter {n : Nat} (h : n < 2 ^ 31) : toString (counter n) = toString n := by
  change toString (counter n).toInt = _
  rw [toInt_counter h]
  rfl

section

variable (showsPositions : Bool) (depth : Nat) {tokens : List (Positioned Token)}

theorem forall₂_listingLines (h : ∀ t ∈ tokens, t.value.Scanned) :
    List.Forall₂ (IsLineOf showsPositions) tokens (listingLines showsPositions depth tokens) := by
  induction tokens generalizing depth with
  | nil => exact .nil
  | cons t tokens ih =>
    rw [List.forall_mem_cons] at h
    exact .cons (isLineOf_tokenLine showsPositions _ h.1) (ih _ h.2)

theorem map_leadingSpaces_listingLines (tokens : List (Positioned Token)) :
    (listingLines showsPositions depth tokens).map leadingSpaces =
      (indentations depth (tokens.map (·.value.kind))).map (2 * ·) := by
  induction tokens generalizing depth with
  | nil => rfl
  | cons t tokens ih =>
    rw [listingLines, List.map_cons, leadingSpaces_tokenLine, ih, List.map_cons, indentations,
      List.map_cons]

end

theorem lines_eq (texts : List String) : lines texts = String.join (texts.map (· ++ "\n")) := rfl

/-- **A listing shows the nesting of its tokens.**  If the tokens of a file are to be printed, then
what is printed behind the header is one line for each of them, in order, up to the end of the input
or the first error; ends of lines are among them only if they are asked for.  The indentation of the
lines shows how the tokens are nested.

At the end of the input there is one more line, with the number of these lines as a counter of 32
bits shows it: it is their number if there are fewer than `2 ^ 31` of them.  An error is reported,
and there is no such line. -/
theorem file_listing {o : Options} (hprints : o.prints = true) (htokens : o.readsPrograms = false)
    (path : String) {deliveries : List Delivery} {source : String}
    (hsource : decodeText deliveries = .ok source) :
    ∃ texts : List String,
      List.Forall₂ (IsLineOf o.showsPositions)
          ((TokenStream.ofSource o.dialect source).shown o.showsLineEnds) texts ∧
        ShowsNesting
          (((TokenStream.ofSource o.dialect source).shown o.showsLineEnds).map (·.value.kind))
          (texts.map leadingSpaces) ∧
        (∀ q, (TokenStream.ofSource o.dialect source).ending = .endOfInput q →
          ∃ count : Int32, (texts.length < 2 ^ 31 → count.toInt = texts.length) ∧
            file o path (.ok deliveries) =
              ⟨"=== " ++ path ++ " ===\n" ++ (String.join (texts.map (· ++ "\n")) ++
                (";; count_tokens = " ++ toString count ++ "\n")), none⟩) ∧
        ∀ error, (TokenStream.ofSource o.dialect source).ending = .failure error →
          file o path (.ok deliveries) =
            ⟨"=== " ++ path ++ " ===\n" ++ String.join (texts.map (· ++ "\n")),
              some ((Origin.file path).locate error.value.message error.position)⟩ := by
  have hscanned : ∀ t ∈ (TokenStream.ofSource o.dialect source).shown o.showsLineEnds,
      t.value.Scanned := fun t ht => Scanner.scanned_of_mem_stream (List.mem_of_mem_filter ht)
  have hlines := forall₂_listingLines o.showsPositions 0 hscanned
  refine ⟨listingLines o.showsPositions 0 _, hlines, ?_, ?_, ?_⟩
  · rw [map_leadingSpaces_listingLines]
    exact showsNesting _
  · intro q hq
    refine ⟨counter _, toInt_counter, ?_⟩
    have hlast : ∀ count : String,
        ";; count_tokens = " ++ count ++ "\n" = countLine "tokens" count := by
      intro count
      rw [countLine_eq]
      rfl
    rw [← header_eq, ← lines_eq, hlast]
    simp [file, tokens, hprints, htokens, hsource, hq, hlines.length_eq]
  · intro error herror
    rw [← header_eq, ← lines_eq]
    simp [file, tokens, hprints, htokens, hsource, herror]

/-- A parenthesis that closes nothing, and one that nothing closes. -/
theorem file_listing_unbalanced :
    ({ prints := true } : Options).prints = true ∧
      ({ prints := true } : Options).readsPrograms = false ∧
      decodeText [.bytes [0x29, 0x28, 0x61]] = .ok ")(a" ∧
      ∃ texts : List String,
        ShowsNesting [.closeParen, .openParen, .identifier] (texts.map leadingSpaces) ∧
          file { prints := true } "x" (.ok [.bytes [0x29, 0x28, 0x61]]) =
            ⟨"=== x ===\n" ++ (String.join (texts.map (· ++ "\n")) ++ ";; count_tokens = 3\n"),
              none⟩ := by
  have hsource : decodeText [.bytes [0x29, 0x28, 0x61]] = .ok ")(a" := rfl
  have hstream : TokenStream.ofSource ({ prints := true } : Options).dialect ")(a" =
      ⟨[⟨.closing, ⟨0, 0⟩⟩, ⟨.opening, ⟨0, 1⟩⟩, ⟨.identifier "a", ⟨0, 2⟩⟩],
        .endOfInput ⟨0, 3⟩⟩ := by decide +kernel
  obtain ⟨texts, hlines, hnesting, hfile, -⟩ :=
    file_listing (o := { prints := true }) rfl rfl "x" hsource
  rw [hstream] at hlines hnesting hfile
  obtain ⟨count, hcount, hreport⟩ := hfile _ rfl
  have hlength : texts.length = 3 := hlines.length_eq.symm
  have hthree : count.toInt = 3 := by rw [hcount (by rw [hlength]; decide), hlength]; rfl
  have htext : ";; count_tokens = " ++ toString count ++ "\n" = ";; count_tokens = 3\n" := by
    change ";; count_tokens = " ++ toString count.toInt ++ "\n" = _
    rw [hthree]
    rfl
  rw [htext] at hreport
  exact ⟨rfl, rfl, hsource, texts, hnesting, hreport⟩

end Report
end SmallLisp

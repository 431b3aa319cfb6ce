import SmallLisp.Proofs.Coordinates
import SmallLisp.Proofs.Resumption
import SmallLisp.Proofs.StrictDecoding

/-!
# Two counters of lines

Places are counted twice.  A decoder counts while it puts characters together, and there only a
newline ends a line; a scanner counts again while it goes through the text, and there a carriage
return that no newline follows ends one as well.  What the two say ends up in the same messages.

The scanner is ahead by one line for every lone carriage return that is behind it, and where there
is none the two places are the same (`Position.AheadBy`).  Both go through the text in the same
steps, so this is an invariant of passing over a front (`Passes.aheadBy`): a character takes both
counters along in the same way, and a lone carriage return is the one lexeme that does not.
-/

namespace SmallLisp

/-! ## Lone carriage returns -/

/-- **The number of lone carriage returns among the first `i` characters of a text**: those that no
newline directly follows in the text. -/
def loneReturnsBefore (text : List Char) (i : Nat) : Nat :=
  (List.range i).countP fun k => text[k]? == some '\r' && text[k + 1]? != some '\n'

theorem loneReturnsBefore_append (front text : List Char) (i : Nat) :
    loneReturnsBefore (front ++ text) (front.length + i) =
      loneReturnsBefore (front ++ text) front.length + loneReturnsBefore text i := by
  rw [loneReturnsBefore, List.range_add, List.countP_append, List.countP_map]
  congr 1
  apply List.countP_congr
  intro k _
  simp [List.getElem?_append_right, Nat.add_assoc]

theorem loneReturnsBefore_eq_zero {front : List Char} (h : '\r' ∉ front) (text : List Char) :
    loneReturnsBefore (front ++ text) front.length = 0 := by
  apply List.countP_eq_zero.2
  intro k hk
  rw [List.getElem?_append_left (List.mem_range.1 hk)]
  have hreturn : front[k]? ≠ some '\r' := fun hget => h (List.mem_of_getElem? hget)
  simp [hreturn]

/-- A lexeme with a carriage return in it is a line break. -/
theorem Lexeme.return_cases {lexeme rest : List Char} (h : Lexeme lexeme rest) :
    lexeme = ['\r'] ∧ rest.head? ≠ some '\n' ∨ lexeme = ['\r', '\n'] ∨ '\r' ∉ lexeme := by
  cases h with
  | newline => exact .inr (.inr (by decide))
  | returnNewline => exact .inr (.inl rfl)
  | loneReturn hrest => exact .inl ⟨rfl, hrest⟩
  | tick => exact .inr (.inr (by decide))
  | openParen => exact .inr (.inr (by decide))
  | closeParen => exact .inr (.inr (by decide))
  | word hword _ => exact .inr (.inr (IsForeign.carriageReturn.not_mem_of_isWord hword))
  | number hnumber _ =>
    exact .inr (.inr (IsForeign.carriageReturn.not_mem_of_isNumberLexeme hnumber))

/-! ## Ahead by some lines -/

namespace Position

/-- **One counter is ahead of the other by `n` lines**, and at the same place if that is none. -/
structure AheadBy (p q : Position) (n : Nat) : Prop where
  line_eq : p.line = q.line + n
  eq_of_zero : n = 0 → p = q

namespace AheadBy

variable {p q : Position} {n : Nat}

theorem refl (p : Position) : p.AheadBy p 0 := ⟨rfl, fun _ => rfl⟩

theorem eq_iff (h : p.AheadBy q n) : p = q ↔ n = 0 := by
  constructor
  · rintro rfl
    exact Nat.add_eq_left.1 h.line_eq.symm
  · exact h.eq_of_zero

/-- A character takes both along. -/
theorem after (h : p.AheadBy q n) (c : Char) : (p.after c).AheadBy (q.after c) n := by
  refine ⟨?_, fun hn => by rw [h.eq_of_zero hn]⟩
  unfold Position.after
  split
  · exact (congrArg (· + 1) h.line_eq).trans (Nat.add_right_comm _ _ _)
  · exact h.line_eq

theorem afterAll (h : p.AheadBy q n) (text : List Char) :
    (p.afterAll text).AheadBy (q.afterAll text) n := by
  induction text generalizing p q with
  | nil => exact h
  | cons c text ih => exact ih (h.after c)

/-- A lone carriage return takes only one of them to the next line. -/
theorem loneReturn (h : p.AheadBy q n) : p.nextLine.AheadBy (q.after '\r') (n + 1) :=
  ⟨congrArg (· + 1) h.line_eq, fun hn => absurd hn (Nat.succ_ne_zero n)⟩

end AheadBy
end Position

section

variable {p q r : Position} {n : Nat}

/-- A lexeme takes both along, but for a lone carriage return. -/
theorem Lexeme.aheadBy {lexeme rest : List Char} (h : Lexeme lexeme rest)
    (hahead : p.AheadBy r n) :
    (p.afterLexeme lexeme).AheadBy (r.afterAll lexeme)
      (n + loneReturnsBefore (lexeme ++ rest) lexeme.length) := by
  unfold Position.afterLexeme
  -- A lone carriage return is a lexeme of its own; one with its newline ends the line for both.
  rcases h.return_cases with ⟨rfl, hhead⟩ | rfl | hreturn
  · have hcount : loneReturnsBefore (['\r'] ++ rest) 1 = 1 := by
      rw [List.head?_eq_getElem?] at hhead
      simp [loneReturnsBefore, hhead]
    rw [if_pos rfl, List.length_singleton, hcount]
    exact hahead.loneReturn
  · exact hahead.afterAll _
  · have hne : lexeme ≠ ['\r'] := by
      rintro rfl
      exact hreturn List.mem_cons_self
    rw [if_neg hne, loneReturnsBefore_eq_zero hreturn]
    exact hahead.afterAll lexeme

/-- Passing over a front leaves a scanner ahead of a decoder by the lone carriage returns in
it.  The induction is on the blanks and lexemes of the front.  Only whole lexemes are passed
over, so a carriage return at the end of the front is lone in the text if it is a lexeme. -/
theorem Passes.aheadBy {front behind : List Char} (h : Passes p front behind q)
    (hahead : p.AheadBy r n) :
    q.AheadBy (r.afterAll front) (n + loneReturnsBefore (front ++ behind) front.length) := by
  induction h generalizing r n with
  | nil p behind => exact hahead
  | @blank p q c front behind hc _ ih =>
    have hreturn : '\r' ∉ [c] := by
      intro hmem
      rw [← List.mem_singleton.1 hmem, isBlank_return] at hc
      cases hc
    rw [← List.singleton_append, List.append_assoc, List.length_append, loneReturnsBefore_append,
      loneReturnsBefore_eq_zero hreturn, Nat.zero_add]
    exact ih (hahead.after c)
  | @lexeme p q lexeme front behind hlexeme _ ih =>
    rw [List.append_assoc, List.length_append, Position.afterAll_append,
      loneReturnsBefore_append, ← Nat.add_assoc]
    exact ih (hlexeme.aheadBy hahead)

end

/-! ## The places that decoding gives -/

/-- What is decoded is a text from `p` on: its characters at their places and, if there is an
error, the error behind the last of them. -/
structure Decoded.IsPlaced (decoded : Decoded) (p : Position) (text : List Char) : Prop where
  chars_eq : decoded.chars = p.placed text
  position_error : ∀ error ∈ decoded.error, error.position = p.afterAll text

namespace Decoded

/-- What a decoder says is a text, and the loop over its answers places that. -/
theorem isPlaced_ofYield (p : Position) (y : StrictDecoder.Yield) :
    (ofYield p y).IsPlaced p y.text := by
  refine ⟨rfl, ?_⟩
  intro error herror
  obtain ⟨fault, -, rfl⟩ := Option.map_eq_some_iff.1 herror
  rfl

/-- If it is the characters of a text that are decoded, they are at their places. -/
theorem isPlaced_ofDeliveries {deliveries : List Delivery} {text : List Char}
    (h : (ofDeliveries deliveries).chars.map Positioned.value = text) :
    (ofDeliveries deliveries).IsPlaced .start text := by
  rw [ofDeliveries_eq] at h ⊢
  have htext : (StrictDecoder.run none deliveries).text = text := by
    rw [← h, ofYield, Position.map_value_placed]
  exact htext ▸ isPlaced_ofYield .start _

/-- A failure is reported behind the characters that were delivered before it. -/
theorem ofDeliveries_failure {text : List Char} {portions : List (List UInt8)}
    (h : IsCut (utf8Bytes text) portions) (message : String) (later : List Delivery) :
    ofDeliveries (portions.map .bytes ++ .failure message :: later) =
      ⟨Position.start.placed text, some ⟨.io message, Position.start.afterAll text⟩⟩ := by
  rcases StrictDecoder.feed_cases StrictDecoder.isSound_none (utf8Bytes text) with
    ⟨text', pending, hfeed, -, -⟩ | ⟨text', refused, behind, -, hbytes, hrefusal⟩
  · have htext : text' = text := by
      have hwhole := (Delivers.whole (utf8Bytes text)).ofDeliveries_eq
      rw [ofDeliveries_eq, (Delivers.whole _).run_eq, hfeed] at hwhole
      have hchars := congrArg (fun decoded => decoded.chars.map Positioned.value) hwhole
      simpa [ofYield, StrictDecoder.continueWith, StrictDecoder.Yield.behind,
        StrictDecoder.atEndOfInput_eq] using hchars
    rw [ofDeliveries_eq, StrictDecoder.run_append_portions none h.ne_nil, h.flatten_eq, hfeed, htext]
    have hlater : StrictDecoder.run pending (.failure message :: later) =
        ⟨[], some (.failure message)⟩ := rfl
    simp [StrictDecoder.continueWith, hlater, StrictDecoder.Yield.behind, ofYield,
      DecodeError.ofFault]
  · exact absurd hbytes (hrefusal.utf8Bytes_ne text' text)

/-- The places of what is decoded: those of the characters, and that of the error behind them. -/
def places (decoded : Decoded) : List Position :=
  decoded.chars.map Positioned.position ++ (decoded.error.map Positioned.position).toList

theorem IsPlaced.eq_of_getElem?_places {decoded : Decoded} {p q : Position} {text : List Char}
    {i : Nat} (h : decoded.IsPlaced p text) (hq : decoded.places[i]? = some q) :
    q = p.afterAll (text.take i) := by
  rw [places, h.chars_eq, List.getElem?_append, List.length_map, Position.length_placed] at hq
  split at hq
  · next hi =>
    rw [List.getElem?_map, Position.getElem?_placed, List.getElem?_eq_getElem hi] at hq
    exact (Option.some.inj hq).symm
  · next hi =>
    have hmem := List.mem_of_getElem? hq
    rw [Option.mem_toList] at hmem
    obtain ⟨error, herror, rfl⟩ := Option.map_eq_some_iff.1 hmem
    rw [List.take_of_length_le (Nat.le_of_not_lt hi)]
    exact h.position_error error herror

/-- Decoding gives the place `p` to the index `i` of a text: whenever it is the characters of
that text that are decoded, what there is at the index is at `p`.  That is a character or, at the
end of the text, the error behind the last one; and there are deliveries with something there. -/
structure PlacesAt (text : List Char) (i : Nat) (p : Position) : Prop where
  forall_places : ∀ deliveries q, (ofDeliveries deliveries).chars.map Positioned.value = text →
    (ofDeliveries deliveries).places[i]? = some q → q = p
  exists_places : ∃ deliveries, (ofDeliveries deliveries).chars.map Positioned.value = text ∧
    (ofDeliveries deliveries).places[i]? = some p

/-- The place is that behind the characters in front. -/
theorem placesAt_append (front behind : List Char) :
    PlacesAt (front ++ behind) front.length (Position.start.afterAll front) := by
  have hforall : ∀ deliveries q,
      (ofDeliveries deliveries).chars.map Positioned.value = front ++ behind →
        (ofDeliveries deliveries).places[front.length]? = some q →
          q = Position.start.afterAll front := by
    intro deliveries q hchars hq
    rw [(isPlaced_ofDeliveries hchars).eq_of_getElem?_places hq, List.take_left]
  refine ⟨hforall, ?_⟩
  -- A source that delivers the text and then fails has something at every index.
  have hfailure := ofDeliveries_failure (isCut_bufferedPieces 0 (utf8Bytes (front ++ behind))) "" []
  have hchars := congrArg (fun decoded => decoded.chars.map Positioned.value) hfailure
  simp only [Position.map_value_placed] at hchars
  refine ⟨_, hchars, ?_⟩
  have hlt : front.length < (Decoded.mk (Position.start.placed (front ++ behind))
      (some ⟨.io "", Position.start.afterAll (front ++ behind)⟩)).places.length := by
    rw [places, List.length_append, List.length_map, Position.length_placed, List.length_append]
    exact Nat.lt_succ_of_le (Nat.le_add_right _ _)
  rw [← hfailure] at hlt
  rw [List.getElem?_eq_getElem hlt]
  exact congrArg some (hforall _ _ hchars (List.getElem?_eq_getElem hlt))

end Decoded

/-! ## The places that a scanner gives -/

namespace Scanner

/-- The text that the next answer is about: that behind the blanks.  A scanner that has reported
the end stays where it did. -/
def facing (s : Scanner) : List Char := if s.ended then s.rest else s.skipBlanks.rest

theorem Request.position_eq {d : Dialect} {p : Position} {text : List Char} {answer : Result}
    {s' : Scanner} (h : Request d p text answer s') : answer.position = p := by
  cases h <;> rfl

theorem exists_passes_facing (d : Dialect) (s : Scanner) :
    ∃ blanks, s.rest = blanks ++ s.facing ∧
      Passes s.position blanks s.facing (Result.position (s.next d).1) := by
  unfold facing
  cases hs : s.ended with
  | true =>
    rw [next_of_ended hs]
    exact ⟨[], rfl, .nil _ _⟩
  | false =>
    rw [(request_next hs).position_eq]
    exact ⟨_, List.takeWhile_append_dropWhile.symm, passes_skipBlanks s⟩

/-- Before the end has been reported, what is answered stands at the head of that text. -/
theorem request_facing {d : Dialect} {s : Scanner} (hs : s.ended = false) :
    Request d (Result.position (s.next d).1) s.facing (s.next d).1 (s.next d).2 := by
  rw [(request_next hs).position_eq, facing, hs]
  exact request_next hs

/-- **The two counters of lines differ by the lone carriage returns.**  Let a scanner of a text,
after any number of requests, answer one more, with a token, the end or an error.  The answer is
about what begins at some index of the text: until the end has been reported, it is what a request
finds there.  Its line is the one that decoding gives to that index and one more for every lone
carriage return in front; and its place is the one that decoding gives, line and column, exactly if
there is no lone carriage return in front. -/
theorem answer_aheadBy_loneReturns (d : Dialect) (source : String) (k : Nat) :
    ∃ i p, i ≤ source.toList.length ∧
      (afterRequests d k (ofSource source)).facing = source.toList.drop i ∧
      ((afterRequests d k (ofSource source)).ended = false →
        Request d (Result.position ((afterRequests d k (ofSource source)).next d).1)
          (source.toList.drop i) ((afterRequests d k (ofSource source)).next d).1
          (afterRequests d (k + 1) (ofSource source))) ∧
      Decoded.PlacesAt source.toList i p ∧
      (Result.position ((afterRequests d k (ofSource source)).next d).1).line =
        p.line + loneReturnsBefore source.toList i ∧
      (Result.position ((afterRequests d k (ofSource source)).next d).1 = p ↔
        loneReturnsBefore source.toList i = 0) := by
  obtain ⟨front, hfront, hpasses⟩ := exists_passes_afterRequests d k (ofSource source)
  obtain ⟨blanks, hblanks, hfacing⟩ := exists_passes_facing d (afterRequests d k (ofSource source))
  rw [hblanks] at hfront hpasses
  have hsource : source.toList =
      (front ++ blanks) ++ (afterRequests d k (ofSource source)).facing := by
    rw [List.append_assoc]
    exact hfront
  have hdrop : (afterRequests d k (ofSource source)).facing =
      source.toList.drop (front ++ blanks).length := by
    rw [hsource, List.drop_left]
  -- The scanner has passed over whole lexemes and blanks only, from the place where both begin.
  have hahead := (hpasses.append hfacing).aheadBy (.refl _)
  rw [← hsource, Nat.zero_add] at hahead
  refine ⟨(front ++ blanks).length, Position.start.afterAll (front ++ blanks), ?_, hdrop, ?_, ?_,
    hahead.line_eq, hahead.eq_iff⟩
  · rw [hsource]
    exact (List.sublist_append_left _ _).length_le
  · intro hs
    rw [← hdrop, afterRequests_succ]
    exact request_facing hs
  · rw [hsource]
    exact Decoded.placesAt_append _ _

/-- Behind a lone carriage return, and another with its newline: the scanner is on the third line,
and decoding on the second. -/
theorem answer_aheadBy_loneReturns_word :
    Result.position ((afterRequests .strict 3 (ofSource "a\r\r\n b")).next .strict).1 = ⟨2, 1⟩ ∧
      ∃ p, Decoded.PlacesAt "a\r\r\n b".toList 5 p ∧ p.line = 1 := by
  have hposition : Result.position
      ((afterRequests .strict 3 (ofSource "a\r\r\n b")).next .strict).1 = ⟨2, 1⟩ := by
    decide +kernel
  have hfacing : (afterRequests .strict 3 (ofSource "a\r\r\n b")).facing = ['b'] := by
    decide +kernel
  obtain ⟨i, p, hi, hdrop, -, hplaces, hline, -⟩ :=
    answer_aheadBy_loneReturns .strict "a\r\r\n b" 3
  obtain rfl : i = 5 := by
    have hlength := congrArg List.length (hfacing.symm.trans hdrop)
    have htext : "a\r\r\n b".toList.length = 6 := by decide
    rw [List.length_drop, htext, List.length_singleton] at hlength
    omega
  have hcount : loneReturnsBefore "a\r\r\n b".toList 5 = 1 := by decide
  rw [hposition, hcount] at hline
  exact ⟨hposition, p, hplaces, (Nat.succ.inj hline).symm⟩

end Scanner
end SmallLisp

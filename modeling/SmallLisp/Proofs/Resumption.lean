import SmallLisp.Proofs.Concatenation
import SmallLisp.Proofs.Tiling

/-!
# A scanner can be taken up anywhere

A scanner may be asked any number of times, past errors and past the end.  Nothing of what it
answered stays with it: it stands between a front that it has passed over and the text behind, and
from there it answers like a new scanner in front of that text alone, the places translated
(`Scanner.ResumesBetween`).  Only the end of the input is remembered, and then it is all that is
answered.

What one request does is listed in `Scanner.Request`.  Whatever a front is made of, it is passed
over in blanks and whole lexemes (`Passes`), a bad number like any other lexeme, so a carriage
return is never parted from the newline behind it and the place can be read off the front.
-/

namespace SmallLisp
namespace Scanner

variable {d : Dialect} {s s' : Scanner} {answer : Result}

/-! ## One request -/

/-- What a request finds where a text begins with no blank, at the place `p`, and how it leaves
the scanner. -/
inductive Request (d : Dialect) (p : Position) : List Char → Result → Scanner → Prop
  | token {lexeme rest : List Char} {t : Token} (hlexeme : Lexeme lexeme rest)
      (ht : Token.ofLexeme lexeme = .ok t) :
      Request d p (lexeme ++ rest) (.ok ⟨t, p⟩) (before rest (p.afterLexeme lexeme))
  | badLexeme {lexeme rest : List Char} {error : LexError} (hlexeme : Lexeme lexeme rest)
      (herror : Token.ofLexeme lexeme = .error error) :
      Request d p (lexeme ++ rest) (.error ⟨error, p⟩) (before rest (p.afterLexeme lexeme))
  | ending (text : List Char) :
      Request d p text (.ok ⟨.plain .eof, p⟩) { before text p with ended := true }
  | unknown {c : Char} {rest : List Char} (hblank : isBlank c = false)
      (hsplit : splitLexeme (c :: rest) = none) (hends : d.endsAtUnknown = false) :
      Request d p (c :: rest) (.error ⟨.unexpectedChar c, p⟩) (before (c :: rest) p)

theorem request_before (d : Dialect) (text : List Char) (p : Position) :
    Request d (before text p).skipBlanks.position (before text p).skipBlanks.rest
      ((before text p).next d).1 ((before text p).next d).2 := by
  induction text, p using text_induction with
  | nil p => exact .ending []
  | blank c text p hc ih => rwa [next_before_blank hc, skipBlanks_before_cons hc]
  | lexeme lexeme text p hlexeme _ =>
    rw [skipBlanks_before_of_endsRun (hlexeme.endsRun_isBlank text)]
    cases ht : Token.ofLexeme lexeme with
    | ok t =>
      rw [next_before_lexeme hlexeme ht]
      exact .token hlexeme ht
    | error error =>
      rw [next_before_bad_lexeme hlexeme ht]
      exact .badLexeme hlexeme ht
  | unknown c text p hblank hsplit =>
    rw [skipBlanks_before_of_endsRun (.cons hblank text)]
    cases hends : d.endsAtUnknown with
    | true =>
      rw [next_before_unknown_end hblank hsplit hends]
      exact .ending _
    | false =>
      rw [next_before_unknown hblank hsplit hends]
      exact .unknown hblank hsplit hends

/-- Every request is one of these, behind the blanks in front. -/
theorem request_next (hs : s.ended = false) :
    Request d s.skipBlanks.position s.skipBlanks.rest (s.next d).1 (s.next d).2 := by
  obtain ⟨text, p, ended⟩ := s
  cases hs
  exact request_before d text p

theorem passes_skipBlanks (s : Scanner) :
    Passes s.position (s.rest.takeWhile isBlank) s.skipBlanks.rest s.skipBlanks.position :=
  .of_blanks (fun _ hc => List.mem_takeWhile_imp hc) s.position _

theorem exists_request (hs : s.ended = false) :
    ∃ blanks rest q, s.rest = blanks ++ rest ∧ Passes s.position blanks rest q ∧
      Request d q rest (s.next d).1 (s.next d).2 :=
  ⟨_, _, _, List.takeWhile_append_dropWhile.symm, passes_skipBlanks s, request_next hs⟩

/-- A scanner that has reported the end stays as it is. -/
theorem next_of_ended (hs : s.ended = true) :
    s.next d = (.ok ⟨.plain .eof, s.position⟩, s) := by
  rw [next, if_pos hs]

/-- What a request passes over. -/
theorem Request.exists_passes {p : Position} {text : List Char} (h : Request d p text answer s') :
    ∃ front, text = front ++ s'.rest ∧ Passes p front s'.rest s'.position := by
  cases h with
  | @token lexeme rest t hlexeme ht =>
    have hpasses : Passes p (lexeme ++ []) rest (p.afterLexeme lexeme) :=
      .lexeme hlexeme (.nil _ rest)
    exact ⟨lexeme, rfl, by rwa [List.append_nil] at hpasses⟩
  | @badLexeme lexeme rest error hlexeme herror =>
    have hpasses : Passes p (lexeme ++ []) rest (p.afterLexeme lexeme) :=
      .lexeme hlexeme (.nil _ rest)
    exact ⟨lexeme, rfl, by rwa [List.append_nil] at hpasses⟩
  | ending => exact ⟨[], rfl, .nil p text⟩
  | unknown => exact ⟨[], rfl, .nil p _⟩

/-- A number with several points is passed over, as far as it goes. -/
theorem Request.of_severalPoints {p position : Position} {text : List Char} {lexeme : String}
    (h : Request d p text (.error ⟨.severalPoints lexeme, position⟩) s') :
    position = p ∧ text = lexeme.toList ++ s'.rest ∧ BeginsSeveralPoints text lexeme.toList := by
  cases h with
  | @badLexeme letters rest _ hlexeme herror =>
    obtain ⟨hnumber, hrun, hpoints, hseveral⟩ := hlexeme.severalPoints_of_error herror
    rw [LexError.severalPoints.injEq] at hseveral
    rw [hseveral, String.toList_ofList]
    exact ⟨rfl, rfl, hnumber, hpoints, rest, rfl, hrun⟩

/-- An unknown character is met again. -/
theorem Request.of_unexpectedChar {p position : Position} {text : List Char} {c : Char}
    (h : Request d p text (.error ⟨.unexpectedChar c, position⟩) s') :
    position = p ∧ (∃ behind, text = c :: behind ∧ s'.rest = c :: behind) ∧
      s'.next d = (.error ⟨.unexpectedChar c, position⟩, s') := by
  cases h with
  | badLexeme hlexeme herror =>
    obtain ⟨-, -, -, hseveral⟩ := hlexeme.severalPoints_of_error herror
    cases hseveral
  | @unknown _ rest hblank hsplit hends =>
    exact ⟨rfl, ⟨rest, rfl, rfl⟩, next_before_unknown hblank hsplit hends _⟩

/-- One request passes over some of the text. -/
theorem exists_passes_next (d : Dialect) (s : Scanner) :
    ∃ front, s.rest = front ++ (s.next d).2.rest ∧
      Passes s.position front (s.next d).2.rest (s.next d).2.position := by
  cases hs : s.ended with
  | true =>
    rw [next_of_ended hs]
    exact ⟨[], rfl, .nil _ _⟩
  | false =>
    obtain ⟨blanks, rest, q, hrest, hblanks, hrequest⟩ := exists_request (d := d) hs
    obtain ⟨front, hfront, hpasses⟩ := hrequest.exists_passes
    rw [hfront] at hrest hblanks
    exact ⟨blanks ++ front, by rw [hrest, List.append_assoc], hblanks.append hpasses⟩

/-- Any number of requests pass over some of the text. -/
theorem exists_passes_afterRequests (d : Dialect) (k : Nat) (s : Scanner) :
    ∃ front, s.rest = front ++ (afterRequests d k s).rest ∧
      Passes s.position front (afterRequests d k s).rest (afterRequests d k s).position := by
  induction k generalizing s with
  | zero => exact ⟨[], rfl, .nil _ _⟩
  | succ k ih =>
    obtain ⟨first, hfirst, hpasses⟩ := exists_passes_next d s
    obtain ⟨more, hmore, hpasses'⟩ := ih (s.next d).2
    rw [hmore] at hfirst hpasses
    exact ⟨first ++ more, by rw [hfirst, List.append_assoc]; rfl, hpasses.append hpasses'⟩

/-! ## The end is remembered -/

/-- An answer that reports the end of the input. -/
def Result.IsEnd (answer : Result) : Prop := ∃ position, answer = .ok ⟨.plain .eof, position⟩

/-- A request answered with the end leaves the scanner ended, at the place of the answer. -/
theorem Request.of_end {p position : Position} {text : List Char}
    (h : Request d p text (.ok ⟨.plain .eof, position⟩) s') :
    s'.ended = true ∧ s'.position = position := by
  cases h with
  | token hlexeme ht => exact absurd rfl (hlexeme.scanned ht).kind_ne_eof
  | ending => exact ⟨rfl, rfl⟩

theorem ended_of_next_eq_end {position : Position}
    (h : (s.next d).1 = .ok ⟨.plain .eof, position⟩) :
    (s.next d).2.ended = true ∧ (s.next d).2.position = position := by
  cases hs : s.ended with
  | true =>
    rw [next_of_ended hs] at h ⊢
    cases h
    exact ⟨hs, rfl⟩
  | false =>
    have hrequest := request_next (d := d) hs
    rw [h] at hrequest
    exact hrequest.of_end

/-- Before a scanner has ended only a request answered with the end makes it end. -/
theorem isEnd_of_ended_next (hs : s.ended = false) (h : (s.next d).2.ended = true) :
    (s.next d).1.IsEnd := by
  obtain ⟨blanks, rest, q, -, -, hrequest⟩ := exists_request (d := d) hs
  generalize (s.next d).1 = answer at hrequest
  generalize (s.next d).2 = s' at hrequest h
  cases hrequest with
  | token => cases h
  | badLexeme => cases h
  | ending => exact ⟨q, rfl⟩
  | unknown => cases h

theorem ended_afterRequests {k : Nat} (hs : s.ended = false)
    (h : ∀ answer ∈ answers d k s, ¬ answer.IsEnd) : (afterRequests d k s).ended = false := by
  induction k generalizing s with
  | zero => exact hs
  | succ k ih =>
    rw [answers, List.forall_mem_cons] at h
    refine ih (Bool.eq_false_iff.2 fun hended => ?_) h.2
    exact h.1 (isEnd_of_ended_next hs hended)

theorem afterRequests_succ (d : Dialect) (k : Nat) (s : Scanner) :
    afterRequests d (k + 1) s = ((afterRequests d k s).next d).2 := by
  induction k generalizing s with
  | zero => rfl
  | succ k ih => exact ih (s.next d).2

/-- A scanner that a request leaves as it is answers the same for ever. -/
theorem answers_eq_replicate (h : s.next d = (answer, s)) (n : Nat) :
    answers d n s = List.replicate n answer := by
  induction n with
  | zero => rfl
  | succ n ih => rw [answers, h, ih, List.replicate_succ]

/-! ## The place is not looked at -/

/-- An answer about a text that itself begins at `o`. -/
def Result.translate (o : Position) : Result → Result
  | .ok t => .ok (t.mapPosition o.translate)
  | .error error => .error (error.mapPosition o.translate)

/-- A scanner in a text that itself begins at `o`. -/
def translate (o : Position) (s : Scanner) : Scanner :=
  { s with position := o.translate s.position }

theorem skipBlanks_translate (o : Position) (s : Scanner) :
    (s.translate o).skipBlanks = s.skipBlanks.translate o := by
  simp [skipBlanks, translate, Position.translate_afterAll]

/-- A request does not look at the place. -/
theorem next_translate (d : Dialect) (o : Position) (s : Scanner) :
    (s.translate o).next d = ((s.next d).1.translate o, (s.next d).2.translate o) := by
  cases hs : s.ended with
  | true =>
    have hs' : (s.translate o).ended = true := hs
    rw [next_of_ended hs, next_of_ended hs']
    rfl
  | false =>
    have hs' : (s.translate o).ended = false := hs
    have hrest : (s.skipBlanks.translate o).rest = s.skipBlanks.rest := rfl
    simp only [next, hs, hs', skipBlanks_translate, hrest]
    cases splitLexeme s.skipBlanks.rest with
    | some result =>
      simp only [translate, Position.translate_afterLexeme]
      cases Token.ofLexeme result.1 <;> rfl
    | none =>
      cases s.skipBlanks.rest with
      | nil => rfl
      | cons c rest => cases d.endsAtUnknown <;> rfl

theorem answers_translate (d : Dialect) (o : Position) (n : Nat) (s : Scanner) :
    answers d n (s.translate o) = (answers d n s).map (Result.translate o) := by
  induction n generalizing s with
  | zero => rfl
  | succ n ih => rw [answers, next_translate, ih, answers, List.map_cons]

/-! ## Going on -/

/-- **After `k` requests a scanner stands between `front` and `behind`** and, unless it has reported
the end, goes on like a new one in front of `behind`, where the places are those of a text that
begins behind `front`. -/
structure ResumesBetween (d : Dialect) (source : String) (k : Nat) (front behind : List Char) :
    Prop where
  text_eq : source.toList = front ++ behind
  rest_eq : (afterRequests d k (ofSource source)).rest = behind
  position_eq : (afterRequests d k (ofSource source)).position = .ofText front
  answers_eq : (∀ answer ∈ answers d k (ofSource source), ¬ answer.IsEnd) →
    ∀ n, answers d n (afterRequests d k (ofSource source)) =
      (answers d n (ofSource (String.ofList behind))).map (Result.translate (.ofText front))

section

variable {source : String} {k : Nat}

/-- Whatever is in front of the rest of a scanner is what it has passed over. -/
theorem resumesBetween_of_eq {front : List Char}
    (h : source.toList = front ++ (afterRequests d k (ofSource source)).rest) :
    ResumesBetween d source k front (afterRequests d k (ofSource source)).rest := by
  obtain ⟨front', hfront', hpasses⟩ := exists_passes_afterRequests d k (ofSource source)
  obtain rfl : front' = front := List.append_cancel_right (hfront'.symm.trans h)
  have hposition : (afterRequests d k (ofSource source)).position = .ofText front' := by
    rw [hpasses.position_eq]
    exact Position.start_translate _
  refine ⟨h, rfl, hposition, ?_⟩
  intro hnone n
  have hscanner : afterRequests d k (ofSource source) =
      (ofSource (String.ofList (afterRequests d k (ofSource source)).rest)).translate
        (.ofText front') := by
    -- As long as the end was not reported a scanner is given by its text and its place.
    have hended := ended_afterRequests (s := ofSource source) rfl hnone
    generalize afterRequests d k (ofSource source) = s at hposition hended
    obtain ⟨rest, position, ended⟩ := s
    simp only at hposition hended
    simp [ofSource, translate, hposition, hended]
  rw [← answers_translate, ← hscanner]

theorem exists_resumesBetween (d : Dialect) (source : String) (k : Nat) :
    ∃ front behind, ResumesBetween d source k front behind := by
  obtain ⟨front, hfront, -⟩ := exists_passes_afterRequests d k (ofSource source)
  exact ⟨front, _, resumesBetween_of_eq hfront⟩

/-- What the request after `k` others finds, if they have not come to the end. -/
theorem exists_request_afterRequests (hs : (afterRequests d k (ofSource source)).ended = false) :
    ∃ front rest, source.toList = front ++ rest ∧
      Request d (.ofText front) rest ((afterRequests d k (ofSource source)).next d).1
        (afterRequests d (k + 1) (ofSource source)) := by
  obtain ⟨front, hfront, hpasses⟩ := exists_passes_afterRequests d k (ofSource source)
  obtain ⟨blanks, rest, q, hrest, hblanks, hrequest⟩ := exists_request (d := d) hs
  rw [hrest] at hfront hpasses
  have hq : q = .ofText (front ++ blanks) := by
    rw [(hpasses.append hblanks).position_eq]
    exact Position.start_translate _
  refine ⟨front ++ blanks, rest, by rw [List.append_assoc]; exact hfront, ?_⟩
  rwa [afterRequests_succ, ← hq]

end

/-- **A scanner can be taken up anywhere.**  After any number of requests it stands between a front
and the text behind, and goes on like a new scanner there until it has reported the end.

* A number with several points is passed over as a whole.
* An unknown character is not passed over, and the error is repeated for ever.
* So is the end of the input. -/
theorem resumes (d : Dialect) (source : String) (k : Nat) :
    (∃ front behind, ResumesBetween d source k front behind) ∧
      (∀ lexeme position, ((afterRequests d k (ofSource source)).next d).1 =
          .error ⟨.severalPoints lexeme, position⟩ →
        ∃ front behind, position = .ofText front ∧
          BeginsSeveralPoints (lexeme.toList ++ behind) lexeme.toList ∧
          ResumesBetween d source (k + 1) (front ++ lexeme.toList) behind) ∧
      (∀ c position, ((afterRequests d k (ofSource source)).next d).1 =
          .error ⟨.unexpectedChar c, position⟩ →
        ∃ front behind, position = .ofText front ∧
          ResumesBetween d source (k + 1) front (c :: behind) ∧
          ∀ n, answers d n (afterRequests d (k + 1) (ofSource source)) =
            List.replicate n (.error ⟨.unexpectedChar c, position⟩)) ∧
      ∀ position, ((afterRequests d k (ofSource source)).next d).1 =
          .ok ⟨.plain .eof, position⟩ →
        ∀ n, answers d n (afterRequests d (k + 1) (ofSource source)) =
          List.replicate n (.ok ⟨.plain .eof, position⟩) := by
  have hrequest : ∀ {error}, ((afterRequests d k (ofSource source)).next d).1 = .error error →
      ∃ front rest, source.toList = front ++ rest ∧ Request d (.ofText front) rest (.error error)
        (afterRequests d (k + 1) (ofSource source)) := by
    intro error herror
    have hs : (afterRequests d k (ofSource source)).ended = false := by
      rw [Bool.eq_false_iff]
      intro hended
      rw [next_of_ended hended] at herror
      cases herror
    rw [← herror]
    exact exists_request_afterRequests hs
  refine ⟨exists_resumesBetween d source k, ?_, ?_, ?_⟩
  · intro lexeme position herror
    obtain ⟨front, rest, htext, hrequest⟩ := hrequest herror
    obtain ⟨hposition, hrest, hpoints⟩ := hrequest.of_severalPoints
    rw [hrest] at htext hpoints
    exact ⟨front, _, hposition, hpoints, resumesBetween_of_eq (by rw [htext, List.append_assoc])⟩
  · intro c position herror
    obtain ⟨front, rest, htext, hrequest⟩ := hrequest herror
    obtain ⟨hposition, ⟨behind, hbehind, hrest⟩, hnext⟩ := hrequest.of_unexpectedChar
    rw [hbehind, ← hrest] at htext
    exact ⟨front, behind, hposition, hrest ▸ resumesBetween_of_eq htext, answers_eq_replicate hnext⟩
  · intro position hend
    obtain ⟨hended, hplace⟩ := ended_of_next_eq_end hend
    rw [← afterRequests_succ] at hended hplace
    apply answers_eq_replicate
    rw [next_of_ended hended, hplace]

/-- Behind a bad number scanning goes on; at an unknown character it does not. -/
theorem resumes_behind_points :
    (∃ front behind, Position.start = .ofText front ∧
        ResumesBetween .strict "1.2.3 #" 1 (front ++ "1.2.3".toList) behind) ∧
      ∀ n, answers .strict n (afterRequests .strict 2 (ofSource "1.2.3 #")) =
        List.replicate n (.error ⟨.unexpectedChar '#', ⟨0, 6⟩⟩) := by
  have hpoints : ((ofSource "1.2.3 #").next .strict).1 =
      .error ⟨.severalPoints "1.2.3", .start⟩ := by decide +kernel
  have hunknown : ((afterRequests .strict 1 (ofSource "1.2.3 #")).next .strict).1 =
      .error ⟨.unexpectedChar '#', ⟨0, 6⟩⟩ := by decide +kernel
  constructor
  · obtain ⟨front, behind, hposition, -, hresumes⟩ :=
      (resumes .strict "1.2.3 #" 0).2.1 _ _ hpoints
    exact ⟨front, behind, hposition, hresumes⟩
  · obtain ⟨front, behind, -, -, hforever⟩ := (resumes .strict "1.2.3 #" 1).2.2.1 _ _ hunknown
    exact hforever

end Scanner
end SmallLisp

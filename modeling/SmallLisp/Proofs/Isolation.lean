import SmallLisp.Proofs.Indentation

/-!
# Files are reported on by themselves

A run over several files is the runs over the single files, one after the other: nothing that is
found in one file has an effect on what is said about another.  What a run adds to that is one
line at the end, if any file failed, and the exit code.

To find the reports in the output again, one has to know that a header stands nowhere else.  It has
equals signs, and they are foreign to all that is listed or written; so of all that is reported,
only headers and counts have one (`exists_isBody_file`).

The tokens of a file are counted in 32 bits.  A file with more of them than that is reported on with
a wrong number, or the run stops there if its arithmetic is checked; so it is left out of account
(`IsCountable`).
-/

namespace SmallLisp

/-! ## Texts without an equals sign -/

/-- A text without an equals sign. -/
def IsUnmarked (s : String) : Prop := '=' ∉ s.toList

instance (s : String) : Decidable (IsUnmarked s) := inferInstanceAs (Decidable ('=' ∉ s.toList))

theorem IsUnmarked.count_eq_zero {s : String} (h : IsUnmarked s) : s.toList.count '=' = 0 :=
  List.count_eq_zero.2 h

@[simp] theorem isUnmarked_append (s t : String) :
    IsUnmarked (s ++ t) ↔ IsUnmarked s ∧ IsUnmarked t := by
  simp [IsUnmarked]

theorem isUnmarked_join {texts : List String} (h : ∀ s ∈ texts, IsUnmarked s) :
    IsUnmarked (String.join texts) := by
  induction texts with
  | nil => simp [IsUnmarked]
  | cons s texts ih =>
    rw [List.forall_mem_cons] at h
    rw [String.join_cons, isUnmarked_append]
    exact ⟨h.1, ih h.2⟩

/-- A program that was read is written without equals signs. -/
theorem isUnmarked_text_of_readProgram {d : Dialect} {source : String} {p : Program}
    (h : readProgram d source = .ok p) : IsUnmarked p.text := by
  obtain ⟨hregular, -, -⟩ := isRegularAll_of_readProgram h
  exact IsForeign.equals.not_mem_text_program (by decide) hregular

/-! ## The report on one file -/

/-- What is delivered is no program because it cannot be decoded, or because its text is none. -/
theorem readDelivered_cases {d : Dialect} {deliveries : List Delivery} {e : Positioned ReadError}
    (h : readDelivered d deliveries = .error e) :
    (∃ error, decodeText deliveries = .error error ∧ e = error.map .decoding) ∨
      ∃ source error, decodeText deliveries = .ok source ∧ readProgram d source = .error error ∧
        e = error.map .source := by
  unfold readDelivered at h
  split at h
  · next error hsource =>
    cases h
    exact .inl ⟨error, hsource, rfl⟩
  · next source hsource =>
    cases hread : readProgram d source with
    | error error =>
      rw [hread] at h
      cases h
      exact .inr ⟨source, error, hsource, hread, rfl⟩
    | ok p =>
      rw [hread] at h
      cases h

/-- A program from a file fails because the file cannot be opened, or because of what it
delivers. -/
theorem readOpened_cases {d : Dialect} {path : String} {opened : Opened} {error : LocatedError}
    (h : readOpened d path opened = .error error) :
    (∃ reason, opened = .error reason ∧ error = .cannotOpen reason (.file path)) ∨
      ∃ deliveries e, opened = .ok deliveries ∧ readDelivered d deliveries = .error e ∧
        error = .at e (.file path) := by
  unfold readOpened at h
  split at h
  · next reason =>
    cases h
    exact .inl ⟨reason, rfl, rfl⟩
  · next deliveries =>
    cases hread : readDelivered d deliveries with
    | error e =>
      rw [hread] at h
      cases h
      exact .inr ⟨deliveries, e, rfl, hread, rfl⟩
    | ok p =>
      rw [hread] at h
      cases h

theorem exists_readProgram_of_readOpened {d : Dialect} {path : String} {opened : Opened}
    {p : Program} (h : readOpened d path opened = .ok p) :
    ∃ deliveries source, opened = .ok deliveries ∧ decodeText deliveries = .ok source ∧
      readProgram d source = .ok p := by
  unfold readOpened at h
  split at h
  · cases h
  · next deliveries =>
    unfold readDelivered at h
    split at h
    · cases h
    · next source hsource =>
      cases hread : readProgram d source with
      | error e =>
        rw [hread] at h
        cases h
      | ok q =>
        rw [hread] at h
        cases h
        exact ⟨deliveries, source, rfl, hsource, hread⟩

namespace Report

/-- What is counted in the report on a file. -/
def counted (o : Options) : String := if o.readsPrograms then "toplevel" else "tokens"

theorem isUnmarked_counted (o : Options) : IsUnmarked (counted o) := by
  unfold counted
  split <;> simp [IsUnmarked]

theorem isUnmarked_toString_nat (n : Nat) : IsUnmarked (toString n) := by
  have hdigits : '=' ∉ Nat.toDigits 10 n := (Numeral.digits_toDigits n).not_mem (by decide)
  simpa [IsUnmarked] using hdigits

theorem isUnmarked_toString_counter (n : Nat) : IsUnmarked (toString (counter n)) := by
  change IsUnmarked (toString (counter n).toInt)
  cases (counter n).toInt with
  | ofNat m => exact isUnmarked_toString_nat m
  | negSucc m => exact (isUnmarked_append "-" _).2 ⟨by decide, isUnmarked_toString_nat (m + 1)⟩

theorem isUnmarked_lines {texts : List String} (h : ∀ s ∈ texts, IsUnmarked s) :
    IsUnmarked (lines texts) := by
  refine isUnmarked_join ?_
  rw [List.forall_mem_map]
  intro s hs
  rw [line, isUnmarked_append]
  exact ⟨h s hs, by decide⟩

theorem isUnmarked_listing (showsPositions : Bool) {tokens : List (Positioned Token)}
    (h : ∀ t ∈ tokens, t.value.Scanned) (depth : Nat) :
    IsUnmarked (lines (listingLines showsPositions depth tokens)) := by
  refine isUnmarked_lines ?_
  induction tokens generalizing depth with
  | nil => simp [listingLines]
  | cons t tokens ih =>
    rw [List.forall_mem_cons] at h
    rw [listingLines, List.forall_mem_cons]
    exact ⟨IsForeign.equals.not_mem_tokenLine showsPositions _ h.1, ih h.2 _⟩

/-- The tokens of a file, up to the end of the input or the first error, are fewer than what a
counter of 32 bits can hold.  Nothing is asked of a file that is read as a program. -/
def IsCountable (o : Options) (opened : Opened) : Prop :=
  o.readsPrograms = false → ∀ deliveries source,
    opened = .ok deliveries → decodeText deliveries = .ok source →
      ((TokenStream.ofSource o.dialect source).shown o.showsLineEnds).length < 2 ^ 31

/-- The number in the report on a file: how many expressions its program has, or how many tokens
there are in front of the end of the input, the ends of lines among them if they are asked for. -/
inductive Counts (o : Options) (opened : Opened) : Nat → Prop
  | expressions (hprograms : o.readsPrograms = true) {deliveries : List Delivery} {source : String}
      {p : Program} (hopened : opened = .ok deliveries)
      (hsource : decodeText deliveries = .ok source)
      (hread : readProgram o.dialect source = .ok p) : Counts o opened p.expressions.length
  | tokens (htokens : o.readsPrograms = false) {deliveries : List Delivery} {source : String}
      {q : Position} (hopened : opened = .ok deliveries)
      (hsource : decodeText deliveries = .ok source)
      (hending : (TokenStream.ofSource o.dialect source).ending = .endOfInput q) :
      Counts o opened ((TokenStream.ofSource o.dialect source).shown o.showsLineEnds).length

/-- What is wrong with a file that could be opened, and where: it cannot be decoded; or its text is
no program, if it is read as one; or something in the text is no token, if they are listed. -/
inductive FailsAt (o : Options) (opened : Opened) : String → Position → Prop
  | decoding {deliveries : List Delivery} {error : Positioned DecodeError}
      (hopened : opened = .ok deliveries) (hsource : decodeText deliveries = .error error) :
      FailsAt o opened error.value.message error.position
  | program (hprograms : o.readsPrograms = true) {deliveries : List Delivery} {source : String}
      {error : Positioned SourceError} (hopened : opened = .ok deliveries)
      (hsource : decodeText deliveries = .ok source)
      (hread : readProgram o.dialect source = .error error) :
      FailsAt o opened error.value.message error.position
  | token (htokens : o.readsPrograms = false) {deliveries : List Delivery} {source : String}
      {error : Positioned LexError} (hopened : opened = .ok deliveries)
      (hsource : decodeText deliveries = .ok source)
      (hending : (TokenStream.ofSource o.dialect source).ending = .failure error) :
      FailsAt o opened error.value.message error.position

/-- **The message about a file that fails**: either it could not be opened, for a reason that is
given, or there is something wrong at a place in it. -/
inductive IsMessage (o : Options) (path : String) (opened : Opened) : String → Prop
  | cannotOpen {reason : String} (hopened : opened = .error reason) :
      IsMessage o path opened (quotedString path ++ ": " ++ reason)
  | at {what : String} {p : Position} (hfails : FailsAt o opened what p) :
      IsMessage o path opened (what ++ " in " ++ quotedString path ++
        ("@" ++ toString (p.line + 1) ++ "." ++ toString p.column))

/-- The body of a report: what is listed or written, and then either a count or a message.  The
equals sign of the count is the only one. -/
inductive IsBody (o : Options) (path : String) (opened : Opened) : FileReport → Prop
  | counted {shown count : String} (hshown : IsUnmarked shown) (hcount : IsUnmarked count)
      (hexact : IsCountable o opened → ∃ n, Counts o opened n ∧ count = toString n) :
      IsBody o path opened ⟨shown ++ countLine (counted o) count, none⟩
  | failed {shown message : String} (hshown : IsUnmarked shown)
      (hmessage : IsMessage o path opened message) : IsBody o path opened ⟨shown, some message⟩

theorem FailsAt.isMessage {o : Options} {opened : Opened} {what : String} {p : Position}
    (h : FailsAt o opened what p) (path : String) :
    IsMessage o path opened ((Origin.file path).locate what p) := by
  have hplace : p.text = "@" ++ toString (p.line + 1) ++ "." ++ toString p.column := rfl
  have htext : (Origin.file path).locate what p =
      what ++ " in " ++ quotedString path ++ p.text := by
    simp [Origin.locate, Origin.linkWord, Origin.text, String.append_assoc]
  rw [htext, hplace]
  exact .at h

theorem isBody_tokens {o : Options} (htokens : o.readsPrograms = false) (path : String)
    (opened : Opened) : IsBody o path opened (tokens o path opened) := by
  have hwhat : "tokens" = counted o := by simp [counted, htokens]
  unfold tokens
  split
  · exact .failed (by decide) (.cannotOpen rfl)
  · next deliveries =>
    split
    · next error hsource =>
      exact .failed (by decide) ((FailsAt.decoding rfl hsource).isMessage path)
    · next source hsource =>
      -- Before the end of the source is looked at, the lines are there, and they hold no mark of
      -- a count.
      set stream := TokenStream.ofSource o.dialect source with hstream
      have hscanned : ∀ t ∈ stream.shown o.showsLineEnds, t.value.Scanned := fun t ht =>
        Scanner.scanned_of_mem_stream (List.mem_of_mem_filter ht)
      have hlisting : IsUnmarked (if o.prints then
          lines (listingLines o.showsPositions 0 (stream.shown o.showsLineEnds)) else "") := by
        split
        · exact isUnmarked_listing _ hscanned 0
        · decide
      simp only
      split
      · next q hending =>
        rw [hwhat]
        refine .counted hlisting (isUnmarked_toString_counter _) fun hfew => ?_
        have hlength := hfew htokens _ _ rfl hsource
        exact ⟨_, .tokens htokens rfl hsource hending, toString_counter hlength⟩
      · next error hending =>
        exact .failed hlisting ((FailsAt.token htokens rfl hsource hending).isMessage path)

theorem isBody_program {o : Options} (hprograms : o.readsPrograms = true) (path : String)
    (opened : Opened) : IsBody o path opened (program o path opened) := by
  have hwhat : "toplevel" = counted o := by simp [counted, hprograms]
  unfold program
  split
  · next error herror =>
    refine .failed (by decide) ?_
    cases readOpened_cases herror with
    | inl hopened =>
      obtain ⟨reason, rfl, rfl⟩ := hopened
      exact .cannotOpen rfl
    | inr hdelivered =>
      obtain ⟨deliveries, e, rfl, hread, rfl⟩ := hdelivered
      cases readDelivered_cases hread with
      | inl hdecoding =>
        obtain ⟨error, hsource, rfl⟩ := hdecoding
        exact (FailsAt.decoding rfl hsource).isMessage path
      | inr hprogram =>
        obtain ⟨source, error, hsource, hprogram, rfl⟩ := hprogram
        exact (FailsAt.program hprograms rfl hsource hprogram).isMessage path
  · next p hread =>
    obtain ⟨deliveries, source, hopened, hsource, hprogram⟩ :=
      exists_readProgram_of_readOpened hread
    rw [hwhat]
    refine .counted ?_ (isUnmarked_toString_nat _) fun _ =>
      ⟨_, .expressions hprograms hopened hsource hprogram, rfl⟩
    split
    · exact isUnmarked_text_of_readProgram hprogram
    · decide

/-- The report on a file is its header, and a body in which no header stands. -/
theorem exists_isBody_file (o : Options) (path : String) (opened : Opened) :
    ∃ body, file o path opened = { body with output := header path ++ body.output } ∧
      IsBody o path opened body := by
  unfold file
  split
  · next hprograms => exact ⟨_, rfl, isBody_program hprograms path opened⟩
  · next htokens => exact ⟨_, rfl, isBody_tokens (Bool.eq_false_iff.2 htokens) path opened⟩

theorem count_equals_header (path : String) :
    (header path).toList.count '=' = path.toList.count '=' + 6 := by
  simp [header, line, List.count_append]

theorem count_equals_countLine {what count : String} (hwhat : IsUnmarked what)
    (hcount : IsUnmarked count) : (countLine what count).toList.count '=' = 1 := by
  simp [countLine, line, List.count_append, hwhat.count_eq_zero, hcount.count_eq_zero]

/-- There is no header in a body. -/
theorem IsBody.not_header_infix {o : Options} {path : String} {opened : Opened} {body : FileReport}
    (h : IsBody o path opened body) (other : String) :
    ¬ (header other).toList <:+: body.output.toList := by
  intro hcontains
  -- A header has six equals signs at least, and a body has one at most.
  have hle := hcontains.sublist.count_le '='
  rw [count_equals_header] at hle
  cases h with
  | counted hshown hcount hexact =>
    rw [String.toList_append, List.count_append, hshown.count_eq_zero,
      count_equals_countLine (isUnmarked_counted o) hcount] at hle
    omega
  | failed hshown hmessage =>
    rw [hshown.count_eq_zero] at hle
    omega

/-! ## A run over several files -/

section

variable (o : Options) (openPath : String → Opened)

/-- What a run says about single files on the error output: one line for each that failed. -/
def messages (paths : List String) : String :=
  lines ((paths.map fun path => file o path (openPath path)).filterMap FileReport.failure)

/-- The number of paths that fail when a run is over nothing else. -/
def failuresAlone (paths : List String) : Nat :=
  paths.countP fun path => (run o openPath [path]).exit == 1

theorem failureCount_eq_failuresAlone (paths : List String) :
    failureCount (paths.map fun path => file o path (openPath path)) =
      failuresAlone o openPath paths := by
  rw [failureCount, failuresAlone, List.countP_map]
  refine List.countP_congr fun path _ => ?_
  cases h : (file o path (openPath path)).failure <;> simp [run, outcome, failureCount, h]

theorem run_eq (paths : List String) :
    run o openPath paths =
      { stdout := String.join (paths.map fun path => (file o path (openPath path)).output)
        stderr := messages o openPath paths ++
          if failuresAlone o openPath paths = 0 then ""
          else summary (failuresAlone o openPath paths) paths.length
        exit := if failuresAlone o openPath paths = 0 then 0 else 1 } := by
  simp only [run, outcome, failureCount_eq_failuresAlone, messages, List.map_map, List.length_map]
  rfl

theorem stdout_append (p q : List String) :
    (run o openPath (p ++ q)).stdout = (run o openPath p).stdout ++ (run o openPath q).stdout := by
  simp only [run_eq, List.map_append, String.join_append]

theorem messages_append (p q : List String) :
    messages o openPath (p ++ q) = messages o openPath p ++ messages o openPath q := by
  simp only [messages, lines, List.map_append, List.filterMap_append, String.join_append]

/-- What is added up over two lists of paths is added up over the single paths. -/
theorem eq_join_of_append {f : List String → String} (hnil : f [] = "")
    (happend : ∀ p q, f (p ++ q) = f p ++ f q) (paths : List String) :
    f paths = String.join (paths.map fun path => f [path]) := by
  induction paths with
  | nil => exact hnil
  | cons path paths ih =>
    rw [← List.singleton_append, happend, ih, List.singleton_append, List.map_cons,
      String.join_cons]

/-- The output of a run is that of the runs over the single paths, in order. -/
theorem stdout_eq_join (paths : List String) :
    (run o openPath paths).stdout =
      String.join (paths.map fun path => (run o openPath [path]).stdout) :=
  eq_join_of_append (f := fun paths => (run o openPath paths).stdout) rfl
    (stdout_append o openPath) paths

theorem messages_eq_join (paths : List String) :
    messages o openPath paths =
      String.join (paths.map fun path => messages o openPath [path]) :=
  eq_join_of_append rfl (messages_append o openPath) paths

/-- A run in which nothing fails has nothing to say. -/
theorem messages_eq_nil {paths : List String} (h : failuresAlone o openPath paths = 0) :
    messages o openPath paths = "" := by
  rw [← failureCount_eq_failuresAlone, failureCount, List.countP_eq_zero] at h
  have hnone : (paths.map fun path => file o path (openPath path)).filterMap
      FileReport.failure = [] :=
    List.filterMap_eq_nil_iff.2 fun report hreport => by simpa using h report hreport
  rw [messages, hnone]
  rfl

end

/-- **What one file adds to the outputs of a run**: a header, and a body in which no header
stands. -/
structure AddsReport (o : Options) (openPath : String → Opened) (path body : String) : Prop where
  stdout_eq : (run o openPath [path]).stdout = "=== " ++ path ++ " ===\n" ++ body
  not_header_infix : ∀ other, ¬ ("=== " ++ other ++ " ===\n").toList <:+: body.toList
  /-- Either the body ends with a count, and there is no message; or not even the beginning of a
  count is in it, and there is one message. -/
  counted_or_failed :
    ((run o openPath [path]).exit = 0 ∧ messages o openPath [path] = "" ∧
        ∃ shown n, Counts o (openPath path) n ∧
          body = shown ++ (";; count_" ++ counted o ++ " = " ++ toString n ++ "\n")) ∨
      ((run o openPath [path]).exit = 1 ∧
        ¬ (";; count_" ++ counted o ++ " = ").toList <:+: body.toList ∧
        ∃ message, IsMessage o path (openPath path) message ∧
          messages o openPath [path] = message ++ "\n")

theorem exists_addsReport (o : Options) {openPath : String → Opened} {path : String}
    (hfew : IsCountable o (openPath path)) : ∃ body, AddsReport o openPath path body := by
  obtain ⟨body, hfile, hbody⟩ := exists_isBody_file o path (openPath path)
  have hheader := hbody.not_header_infix
  simp only [header_eq] at hheader
  refine ⟨body.output, ?_, hheader, ?_⟩
  · simp [run, outcome, hfile, header_eq]
  · cases hbody with
    | @counted shown count hshown hcount hexact =>
      obtain ⟨n, hn, rfl⟩ := hexact hfew
      refine .inl ⟨?_, ?_, shown, n, hn, by rw [countLine_eq]⟩
      · simp [run, outcome, failureCount, hfile]
      · simp [messages, lines, hfile]
    | @failed shown message hshown hmessage =>
      refine .inr ⟨?_, ?_, message, hmessage, ?_⟩
      · simp [run, outcome, failureCount, hfile]
      · intro hcontains
        exact hshown (hcontains.subset (by simp))
      · simp [messages, lines, line, hfile]

/-- **A run over several files is the runs over the single ones.**  For all options, and whatever
the paths lead to, if no file has too many tokens to be counted:

The outputs of a run over two lists of paths, but for the line at the end, are those of the runs
over the one list and over the other; so they are those of the runs over the single paths, in
order.  Every path adds one header, and then either what was asked for, ending with a count, or one
message about it.

The line at the end is there, and the run fails, exactly if some path fails alone; it says how many
do.  Otherwise the run succeeds, and the error output is empty. -/
theorem run_isolated (o : Options) {openPath : String → Opened}
    (hfew : ∀ path, IsCountable o (openPath path)) :
    (∀ p q,
      (run o openPath (p ++ q)).stdout = (run o openPath p).stdout ++ (run o openPath q).stdout ∧
        messages o openPath (p ++ q) = messages o openPath p ++ messages o openPath q) ∧
      (∀ paths,
        (run o openPath paths).stdout =
            String.join (paths.map fun path => (run o openPath [path]).stdout) ∧
          messages o openPath paths =
            String.join (paths.map fun path => messages o openPath [path])) ∧
      (∀ path, ∃ body, AddsReport o openPath path body) ∧
      ∀ paths,
        (0 < failuresAlone o openPath paths ↔ (run o openPath paths).exit = 1 ∧
            ∃ front, (run o openPath paths).stderr =
              front ++ ("Error: " ++ toString (failuresAlone o openPath paths) ++ " of " ++
                toString paths.length ++ " files failed\n")) ∧
          (0 < failuresAlone o openPath paths → (run o openPath paths).stderr =
            messages o openPath paths ++
              ("Error: " ++ toString (failuresAlone o openPath paths) ++ " of " ++
                toString paths.length ++ " files failed\n")) ∧
          (failuresAlone o openPath paths = 0 →
            (run o openPath paths).exit = 0 ∧ (run o openPath paths).stderr = "") := by
  refine ⟨fun p q => ⟨stdout_append o openPath p q, messages_append o openPath p q⟩,
    fun paths => ⟨stdout_eq_join o openPath paths, messages_eq_join o openPath paths⟩,
    fun path => exists_addsReport o (hfew path), ?_⟩
  intro paths
  rw [run_eq, ← summary_eq]
  rcases Nat.eq_zero_or_pos (failuresAlone o openPath paths) with hzero | hpos
  · simp [hzero, messages_eq_nil o openPath hzero]
  · have hne : failuresAlone o openPath paths ≠ 0 := Nat.ne_of_gt hpos
    rw [if_neg hne, if_neg hne]
    exact ⟨⟨fun _ => ⟨rfl, _, rfl⟩, fun _ => hpos⟩, fun _ => rfl, fun h => absurd h hne⟩

/-- A file with the letter `x` and a `?`, read strictly, and a path where nothing is: each of them
has its message, and what is listed of the first one stays. -/
theorem run_isolated_failing :
    ∃ openPath : String → Opened,
      openPath "a" = .ok [.bytes [0x78, 0x3F]] ∧ openPath "b" = .error "gone" ∧
        (∀ path, IsCountable { prints := true, strict := true } (openPath path)) ∧
        (run { prints := true, strict := true } openPath ["a", "b"]).stdout =
          "=== a ===\nIdentifier x\n" ++ "=== b ===\n" ∧
        (run { prints := true, strict := true } openPath ["a", "b"]).stderr =
          "unexpected character '?' in \"a\"@1.1\n" ++ "\"b\": gone\n" ++
            "Error: 2 of 2 files failed\n" ∧
        (run { prints := true, strict := true } openPath ["a", "b"]).exit = 1 := by
  let o : Options := { prints := true, strict := true }
  let openPath : String → Opened := fun path =>
    if path = "a" then .ok [.bytes [0x78, 0x3F]] else .error "gone"
  have hfew : ∀ path, IsCountable o (openPath path) := by
    intro path htokens deliveries source hopened hsource
    dsimp only [openPath] at hopened
    split at hopened
    · cases hopened
      have hx : decodeText [.bytes [0x78, 0x3F]] = .ok "x?" := by decide +kernel
      rw [hx] at hsource
      cases hsource
      decide +kernel
    · cases hopened
  obtain ⟨happend, -, -, hsummary⟩ := run_isolated o hfew
  have hstdout := (happend ["a"] ["b"]).1
  have hmessages := (happend ["a"] ["b"]).2
  obtain ⟨hexit, hstderr, -⟩ := hsummary ["a", "b"]
  have hfailures : failuresAlone o openPath ["a", "b"] = 2 := by decide +kernel
  rw [hfailures] at hexit hstderr
  have ha : (run o openPath ["a"]).stdout = "=== a ===\nIdentifier x\n" ∧
      messages o openPath ["a"] = "unexpected character '?' in \"a\"@1.1\n" := by decide +kernel
  have hb : (run o openPath ["b"]).stdout = "=== b ===\n" ∧
      messages o openPath ["b"] = "\"b\": gone\n" := by decide +kernel
  rw [ha.1, hb.1] at hstdout
  rw [ha.2, hb.2] at hmessages
  refine ⟨openPath, rfl, rfl, hfew, hstdout, ?_, (hexit.1 (by decide)).1⟩
  rw [hstderr (by decide), ← List.singleton_append, hmessages]
  rfl

end Report
end SmallLisp

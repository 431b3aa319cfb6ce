import SmallLisp.Proofs.Levels

/-!
# Reading without a limit

The nesting limit only cuts.  A text that is read without a limit comes to the same program or to
the same error with it, unless a list or quotation begins inside as many others as the limit
allows; then reading fails at the first token that begins one there.

A step with the limit is a step without, or the refusal (`Unfinished.advance_eq_ite`), so the two
runs are the same up to the first refusal.  Where that is can be told from the tokens in front of it
(`Token.BeginsInside`): a reader refuses a token on a level below the limit, too, but on the way
there it has met one on the level of the limit.
-/

namespace SmallLisp

namespace Unfinished

variable {rules : Rules} {ending : StreamEnd} {u v : Unfinished} {ts : List (Positioned Token)}

/-! ## The two runs -/

/-- The `k`-th token is nested too deep, where a reader without a limit has come to. -/
def RefusesAt (rules : Rules) (u : Unfinished) (ts : List (Positioned Token)) (k : Nat) : Prop :=
  ∃ t v, ts[k]? = some t ∧
    u.advanceAll rules.unlimited ((ts.take k).map (·.value)) = .ok v ∧
    v.advance rules t.value = .error .nestingTooDeep

theorem refusesAt_zero {t : Positioned Token} :
    u.RefusesAt rules (t :: ts) 0 ↔ u.advance rules t.value = .error .nestingTooDeep := by
  simp [RefusesAt]

theorem refusesAt_succ {t : Positioned Token} {k : Nat}
    (h : u.advance rules.unlimited t.value = .ok v) :
    u.RefusesAt rules (t :: ts) (k + 1) ↔ v.RefusesAt rules ts k := by
  simp [RefusesAt, advanceAll, h]

/-- A run in which nothing is refused as nested too deep is the run without a limit. -/
theorem readFrom_eq_unlimited (h : ∀ k, ¬ u.RefusesAt rules ts k) :
    u.readFrom rules ending ts = u.readFrom rules.unlimited ending ts := by
  induction ts generalizing u with
  | nil => rfl
  | cons t ts ih =>
    have hstep := advance_eq_unlimited (mt refusesAt_zero.2 (h 0))
    rw [readFrom, readFrom, hstep]
    cases hread : u.advance rules.unlimited t.value with
    | error error => rfl
    | ok v => exact ih fun k => mt (refusesAt_succ hread).2 (h (k + 1))

/-- A run ends at the first token that is nested too deep. -/
theorem readFrom_eq_nestingTooDeep {k : Nat} {t : Positioned Token} (ht : ts[k]? = some t)
    (h : u.RefusesAt rules ts k) (hfirst : ∀ j < k, ¬ u.RefusesAt rules ts j) :
    u.readFrom rules ending ts = .error ⟨.grammatical .nestingTooDeep, t.position⟩ := by
  -- By induction on the tokens: unless the first one is refused, the run goes on as it would
  -- without a limit, and the `k`-th token is one nearer.
  induction ts generalizing u k with
  | nil => cases ht
  | cons s ts ih =>
    cases k with
    | zero =>
      cases ht
      rw [readFrom, refusesAt_zero.1 h]
    | succ k =>
      have hstep := advance_eq_unlimited (mt refusesAt_zero.2 (hfirst 0 (Nat.succ_pos k)))
      obtain ⟨_, w, -, hread, -⟩ := id h
      cases hv : u.advance rules.unlimited s.value with
      | error error => simp [advanceAll, hv] at hread
      | ok v =>
        rw [readFrom, hstep, hv]
        exact ih ht ((refusesAt_succ hv).1 h) fun j hj =>
          mt (refusesAt_succ hv).2 (hfirst (j + 1) (Nat.succ_lt_succ hj))

end Unfinished

/-! ## Where the limit is met -/

/-- The `k`-th of the tokens that matter begins a list or quotation inside `n` others. -/
def TokenStream.BeginsInside (readsForms : Bool) (n : Nat) (stream : TokenStream) (k : Nat) :
    Prop :=
  ∃ t, stream.significant[k]? = some t ∧
    t.value.BeginsInside readsForms n ((stream.significant.take k).map (·.value))

namespace TokenStream

variable {rules : Rules} {limit : Nat} {stream : TokenStream}

theorem scanned_of_mem_take {ts : List (Positioned Token)} (hts : ∀ t ∈ ts, t.value.Scanned)
    (k : Nat) : ∀ t ∈ (ts.take k).map (·.value), t.Scanned := by
  intro t ht
  obtain ⟨s, hs, rfl⟩ := List.mem_map.1 ht
  exact hts s (List.mem_of_mem_take hs)

/-- What begins a list or quotation is met by a reader without a limit, which goes deeper there. -/
theorem beginsInside_iff_exists_enters (hts : ∀ t ∈ stream.significant, t.value.Scanned)
    (rules : Rules) (n k : Nat) :
    stream.BeginsInside rules.readsForms n k ↔
      ∃ t u, stream.significant[k]? = some t ∧
        Unfinished.empty.advanceAll rules.unlimited
          ((stream.significant.take k).map (·.value)) = .ok u ∧
        u.enters rules.readsForms t.value = true ∧ u.depth = n := by
  have hunlimited : rules.unlimited.nestingLimit = none := rfl
  have hts' := scanned_of_mem_take hts k
  constructor
  · rintro ⟨t, ht, hbegins⟩
    obtain ⟨u, hread, henters, hdepth⟩ :=
      (Unfinished.beginsInside_iff hunlimited hts').1 hbegins
    exact ⟨t, u, ht, hread, henters, hdepth⟩
  · rintro ⟨t, u, ht, hread, henters, hdepth⟩
    exact ⟨t, ht, (Unfinished.beginsInside_iff hunlimited hts').2 ⟨u, hread, henters, hdepth⟩⟩

/-- On the level of the limit, what begins a list or quotation is refused. -/
theorem BeginsInside.refusesAt (hts : ∀ t ∈ stream.significant, t.value.Scanned)
    (hlimit : rules.nestingLimit = some limit) {k : Nat}
    (h : stream.BeginsInside rules.readsForms limit k) :
    Unfinished.empty.RefusesAt rules stream.significant k := by
  obtain ⟨t, u, ht, hread, henters, hdepth⟩ := (beginsInside_iff_exists_enters hts rules _ k).1 h
  refine ⟨t, u, ht, hread, Unfinished.advance_eq_nestingTooDeep_iff.2 ⟨henters, ?_⟩⟩
  simp [Rules.allows, hlimit, hdepth]

/-- A token among the first ones is one of the tokens. -/
theorem exists_beginsInside_of_take {readsForms : Bool} {n j k : Nat} {t : Token}
    (ht : ((stream.significant.take k).map (·.value))[j]? = some t)
    (h : t.BeginsInside readsForms n (((stream.significant.take k).map (·.value)).take j)) :
    ∃ i ≤ k, stream.BeginsInside readsForms n i := by
  rw [List.getElem?_map, Option.map_eq_some_iff] at ht
  obtain ⟨s, hs, rfl⟩ := ht
  obtain ⟨hs, hj⟩ : stream.significant[j]? = some s ∧ j < k := by
    rw [List.getElem?_take, Option.ite_none_right_eq_some] at hs
    exact hs.symm
  rw [← List.map_take, List.take_take, Nat.min_eq_left (Nat.le_of_lt hj)] at h
  exact ⟨j, Nat.le_of_lt hj, s, hs, h⟩

/-- Where a token is refused, or in front of it, there is one on the level of the limit. -/
theorem exists_beginsInside_of_refusesAt (hts : ∀ t ∈ stream.significant, t.value.Scanned)
    (hlimit : rules.nestingLimit = some limit) {k : Nat}
    (h : Unfinished.empty.RefusesAt rules stream.significant k) :
    ∃ j ≤ k, stream.BeginsInside rules.readsForms limit j := by
  obtain ⟨t, u, ht, hread, hrefused⟩ := h
  obtain ⟨henters, hallows⟩ := Unfinished.advance_eq_nestingTooDeep_iff.1 hrefused
  have hle : limit ≤ u.depth := by simpa [Rules.allows, hlimit] using hallows
  have hbegins := (beginsInside_iff_exists_enters hts rules u.depth k).2
    ⟨t, u, ht, hread, henters, rfl⟩
  -- Below the level of the limit the refused token itself will not do.  What it is inside of was
  -- begun in front of it, one level at a time.
  rcases Nat.eq_or_lt_of_le hle with rfl | hlt
  · exact ⟨k, Nat.le_refl k, hbegins⟩
  · obtain ⟨_, -, -, around, haround, hinside, -⟩ := hbegins
    obtain ⟨j, s, hs, hbegins⟩ := hinside.exists_beginsInside (haround ▸ hlt)
    exact exists_beginsInside_of_take hs hbegins

end TokenStream

/-- **The nesting limit only cuts.**  Let a text be read with the limit, and without.

If no list or quotation begins inside as many others as the limit allows, both come to the same
program, or to the same error at the same position.  Otherwise reading with the limit fails at the
first token that begins one there.

What is inside what is said by the grammar, and it is what a reader without a limit finds: the
number of lists and quotations around the place where it is.  Finished expressions add nothing to
it, however many there are, and parameters do not either. -/
theorem nestingLimit_only_cuts (d : Dialect) (source : String) :
    ((∀ k, ¬ (TokenStream.ofSource d source).BeginsInside d.readsForms nestingLimit k) →
        readProgram d source =
          (TokenStream.ofSource d source).readProgram d.rules.unlimited) ∧
      (∀ k t, (TokenStream.ofSource d source).significant[k]? = some t →
        (TokenStream.ofSource d source).BeginsInside d.readsForms nestingLimit k →
        (∀ j < k, ¬ (TokenStream.ofSource d source).BeginsInside d.readsForms nestingLimit j) →
        readProgram d source = .error ⟨.grammatical .nestingTooDeep, t.position⟩) ∧
      (∀ n k, (TokenStream.ofSource d source).BeginsInside d.readsForms n k ↔
        ∃ t u, (TokenStream.ofSource d source).significant[k]? = some t ∧
          Unfinished.empty.advanceAll d.rules.unlimited
            (((TokenStream.ofSource d source).significant.take k).map (·.value)) = .ok u ∧
          u.enters d.readsForms t.value = true ∧ u.depth = n) ∧
      (∀ around ts us es, Inside d.readsForms around ts → DerivesAll d.readsForms us es →
        (∀ w ∈ around.head?, ∃ sequence itemsRev, w = .items sequence itemsRev) →
        ∃ around', around'.length = around.length ∧ Inside d.readsForms around' (ts ++ us)) ∧
      ∀ around ts us vs form names, Inside d.readsForms around ts →
        FitsInside d.readsForms around us → Parametric.Begun d.readsForms us form →
        ParameterList vs names → ∃ w, Inside d.readsForms (w :: around) (ts ++ (us ++ vs)) := by
  have hts : ∀ t ∈ (TokenStream.ofSource d source).significant, t.value.Scanned := fun t ht =>
    TokenStream.scanned_of_mem_significant (List.mem_map_of_mem ht)
  have hlimit : d.rules.nestingLimit = some nestingLimit := rfl
  have hunrefused : ∀ k,
      (∀ j ≤ k, ¬ (TokenStream.ofSource d source).BeginsInside d.readsForms nestingLimit j) →
      ¬ Unfinished.empty.RefusesAt d.rules (TokenStream.ofSource d source).significant k := by
    intro k hnone hrefused
    obtain ⟨j, hj, hbegins⟩ := TokenStream.exists_beginsInside_of_refusesAt hts hlimit hrefused
    exact hnone j hj hbegins
  refine ⟨?_, ?_, TokenStream.beginsInside_iff_exists_enters hts d.rules, ?_, ?_⟩
  · intro hnone
    rw [readProgram_eq_readFrom, TokenStream.readProgram_ofSource]
    exact Unfinished.readFrom_eq_unlimited fun k => hunrefused k fun j _ => hnone j
  · intro k t ht hbegins hfirst
    rw [readProgram_eq_readFrom]
    exact Unfinished.readFrom_eq_nestingTooDeep ht (hbegins.refusesAt hts hlimit) fun j hj =>
      hunrefused j fun i hi => hfirst i (Nat.lt_of_le_of_lt hi hj)
  · exact fun around ts us es h hes hwaits => h.append_derivesAll hes hwaits
  · exact fun around ts us vs form names h hfits hform hparameters =>
      h.append_parameterList hfits hform hparameters

end SmallLisp

import Mathlib.Data.List.Induction
import SmallLisp.Report

/-!
# Matching parentheses

Which parentheses of a list of tokens match is said by the tokens between them: an opening and a
closing one match if everything between them does (`Matches`).  A token is inside a parenthesis in
front of it if the one that matches is behind it, or there is none (`Encloses`).  There may be
opening and closing parentheses without a match, in any order.

A listing keeps a counter of parentheses that are open, which stays at zero where there is none to
be closed.  The counter is the height of a stack: going through the tokens, the opening parentheses
that have no match yet are left open (`Leaves`), and the next token is inside all of them but for
the one that it closes.
-/

namespace SmallLisp

/-! ## Pairs -/

/-- **Tokens whose parentheses match one another.** -/
inductive Balanced : List TokenKind → Prop
  | nil : Balanced []
  | other {kind : TokenKind} {behind : List TokenKind} (hopen : kind ≠ .openParen)
      (hclose : kind ≠ .closeParen) (hbehind : Balanced behind) : Balanced (kind :: behind)
  | nest {inner behind : List TokenKind} (hinner : Balanced inner) (hbehind : Balanced behind) :
      Balanced (.openParen :: (inner ++ .closeParen :: behind))

/-- Matching parentheses: the opening one at `i` and the closing one at `j` have tokens between
them whose parentheses match one another. -/
def Matches (kinds : List TokenKind) (i j : Nat) : Prop :=
  ∃ front inner behind, kinds = front ++ .openParen :: (inner ++ .closeParen :: behind) ∧
    Balanced inner ∧ front.length = i ∧ front.length + inner.length + 1 = j

/-- What is inside a parenthesis.  The token at `k` is behind the opening parenthesis at `i`,
and in front of the one that matches it, if there is one. -/
structure Encloses (kinds : List TokenKind) (i k : Nat) : Prop where
  getElem?_eq : kinds[i]? = some .openParen
  lt : i < k
  lt_of_matches : ∀ j, Matches kinds i j → k < j

theorem Balanced.append {front behind : List TokenKind} (h : Balanced front)
    (h' : Balanced behind) : Balanced (front ++ behind) := by
  induction h with
  | nil => exact h'
  | other hopen hclose hfront ih => exact .other hopen hclose ih
  | nest hinner hfront ihinner ihfront =>
    rw [List.cons_append, List.append_assoc, List.cons_append]
    exact .nest hinner ihfront

namespace Matches

variable {kinds : List TokenKind} {i j : Nat}

theorem append_right (h : Matches kinds i j) (behind : List TokenKind) :
    Matches (kinds ++ behind) i j := by
  obtain ⟨front, inner, later, rfl, hinner, hi, hj⟩ := h
  exact ⟨front, inner, later ++ behind, by simp, hinner, hi, hj⟩

theorem append_left (h : Matches kinds i j) (front : List TokenKind) :
    Matches (front ++ kinds) (front.length + i) (front.length + j) := by
  obtain ⟨first, inner, behind, rfl, hinner, rfl, rfl⟩ := h
  refine ⟨front ++ first, inner, behind, by simp, hinner, List.length_append, ?_⟩
  rw [List.length_append]
  omega

theorem lt_length (h : Matches kinds i j) : j < kinds.length := by
  obtain ⟨front, inner, behind, rfl, -, rfl, rfl⟩ := h
  simp only [List.length_append, List.length_cons]
  omega

/-- Whether parentheses match does not depend on what is behind them. -/
theorem of_append {behind : List TokenKind} (h : Matches (kinds ++ behind) i j)
    (hj : j < kinds.length) : Matches kinds i j := by
  obtain ⟨front, inner, later, heq, hinner, rfl, rfl⟩ := h
  have hprefix : front ++ .openParen :: (inner ++ [.closeParen]) <+: kinds := by
    refine List.prefix_of_prefix_length_le ⟨later, ?_⟩ (List.prefix_append kinds behind) ?_
    · rw [heq]
      simp
    · simp only [List.length_append, List.length_cons, List.length_nil]
      omega
  obtain ⟨rest, rfl⟩ := hprefix
  exact ⟨front, inner, rest, by simp, hinner, rfl, rfl⟩

/-- An opening parenthesis in one of two parts is matched if it is matched there. -/
theorem exists_of_append_cases (front : List TokenKind) {behind : List TokenKind}
    (hi : (front ++ behind)[i]? = some .openParen)
    (hfront : front[i]? = some .openParen → ∃ j, Matches front i j)
    (hbehind : ∀ n, front.length + n = i → behind[n]? = some .openParen → ∃ j, Matches behind n j) :
    ∃ j, Matches (front ++ behind) i j := by
  rcases Nat.lt_or_ge i front.length with hlt | hge
  · rw [List.getElem?_append_left hlt] at hi
    obtain ⟨j, hj⟩ := hfront hi
    exact ⟨j, hj.append_right behind⟩
  · rw [List.getElem?_append_right hge] at hi
    obtain ⟨j, hj⟩ := hbehind _ (Nat.add_sub_cancel' hge) hi
    have hall := hj.append_left front
    rw [Nat.add_sub_cancel' hge] at hall
    exact ⟨_, hall⟩

end Matches

/-- Every opening parenthesis among tokens whose parentheses match has one that matches it. -/
theorem Balanced.exists_matches {kinds : List TokenKind} (h : Balanced kinds) {i : Nat}
    (hi : kinds[i]? = some .openParen) : ∃ j, Matches kinds i j := by
  induction h generalizing i with
  | nil => simp at hi
  | @other kind behind hopen hclose hbehind ih =>
    refine Matches.exists_of_append_cases [kind] hi (fun hkind => ?_) fun n _ => ih
    exact absurd (List.mem_singleton.1 (List.mem_of_getElem? hkind)).symm hopen
  | @nest inner behind hinner hbehind ihinner ihbehind =>
    cases i with
    | zero => exact ⟨_, [], inner, behind, rfl, hinner, rfl, rfl⟩
    | succ i =>
      -- An opening parenthesis behind the first one is inside it, or behind its match, but not
      -- its match.
      have hrest : ∃ j, Matches (inner ++ .closeParen :: behind) i j := by
        refine Matches.exists_of_append_cases inner hi ihinner fun n _ hn => ?_
        refine Matches.exists_of_append_cases [.closeParen] hn (fun hkind => ?_)
          fun n _ => ihbehind
        cases List.mem_singleton.1 (List.mem_of_getElem? hkind)
      obtain ⟨j, hj⟩ := hrest
      exact ⟨1 + j, Nat.add_comm i 1 ▸ hj.append_left [.openParen]⟩

/-! ## Counting -/

theorem Balanced.count_eq {kinds : List TokenKind} (h : Balanced kinds) :
    kinds.count .closeParen = kinds.count .openParen := by
  induction h with
  | nil => rfl
  | other hopen hclose hbehind ih =>
    rw [List.count_cons_of_ne hopen, List.count_cons_of_ne hclose, ih]
  | nest hinner hbehind ihinner ihbehind =>
    simp only [List.count_cons, List.count_append, ihinner, ihbehind, beq_iff_eq, reduceCtorEq,
      if_true, if_false]
    omega

/-- Tokens that close nothing in front of them: however far one goes, there are no more closing
than opening parentheses. -/
def ClosesNothing (kinds : List TokenKind) : Prop :=
  ∀ n, (kinds.take n).count .closeParen ≤ (kinds.take n).count .openParen

namespace ClosesNothing

theorem nil : ClosesNothing [] := fun n => by simp

theorem opening : ClosesNothing [.openParen] := by
  intro n
  cases n <;> simp

theorem append {front behind : List TokenKind} (h : ClosesNothing front)
    (h' : ClosesNothing behind) : ClosesNothing (front ++ behind) := by
  intro n
  have hfront := h n
  have hbehind := h' (n - front.length)
  rw [List.take_append, List.count_append, List.count_append]
  omega

end ClosesNothing

theorem Balanced.closesNothing {kinds : List TokenKind} (h : Balanced kinds) :
    ClosesNothing kinds := by
  induction h with
  | nil => exact .nil
  | @other kind behind hopen hclose hbehind ih =>
    intro n
    cases n with
    | zero => simp
    | succ n =>
      rw [List.take_succ_cons, List.count_cons_of_ne hopen, List.count_cons_of_ne hclose]
      exact ih n
  | @nest inner behind hinner hbehind ihinner ihbehind =>
    have hcount := hinner.count_eq
    intro n
    cases n with
    | zero => simp
    | succ n =>
      rw [List.take_succ_cons, List.take_append]
      rcases Nat.lt_or_ge inner.length n with hlt | hge
      · obtain ⟨m, hm⟩ := Nat.exists_eq_add_of_lt hlt
        have hrest : n - inner.length = m + 1 := by omega
        have hbehind := ihbehind m
        rw [List.take_of_length_le (Nat.le_of_lt hlt), hrest, List.take_succ_cons]
        simp only [List.count_cons, List.count_append, beq_iff_eq, reduceCtorEq, if_true, if_false]
        omega
      · have hinner := ihinner n
        rw [Nat.sub_eq_zero_of_le hge, List.take_zero, List.append_nil]
        simp only [List.count_cons, beq_iff_eq, reduceCtorEq, if_true, if_false]
        omega

/-- Behind a parenthesis that nothing behind it closes, there is none that matches it. -/
theorem ClosesNothing.not_matches {front rest : List TokenKind} (h : ClosesNothing rest) (j : Nat) :
    ¬ Matches (front ++ .openParen :: rest) front.length j := by
  rintro ⟨front', inner, behind, heq, hinner, hlength, -⟩
  obtain ⟨rfl, htail⟩ := List.append_inj heq hlength.symm
  obtain ⟨-, rfl⟩ := List.cons.inj htail
  have hle := h (inner.length + 1)
  have hcount := hinner.count_eq
  rw [List.take_append, List.take_of_length_le (Nat.le_succ _), Nat.add_sub_cancel_left,
    List.take_succ_cons, List.take_zero, List.count_append, List.count_append] at hle
  simp at hle
  omega

/-! ## The parentheses left open -/

/-- What some tokens leave open: the places of the opening parentheses that have no match yet,
the last one first.  A closing parenthesis with nothing to close leaves nothing open. -/
inductive Leaves : List TokenKind → List Nat → Prop
  | nil : Leaves [] []
  | surplus {front : List TokenKind} (hfront : Leaves front []) :
      Leaves (front ++ [.closeParen]) []
  | balanced {front inner : List TokenKind} {opens : List Nat} (hfront : Leaves front opens)
      (hinner : Balanced inner) : Leaves (front ++ inner) opens
  | opening {front : List TokenKind} {opens : List Nat} (hfront : Leaves front opens) :
      Leaves (front ++ [.openParen]) (front.length :: opens)

namespace Leaves

variable {kinds : List TokenKind} {opens : List Nat} {i : Nat}

/-- Behind the last parenthesis that is open, all others match one another. -/
theorem exists_of_cons (h : Leaves kinds (i :: opens)) :
    ∃ front inner, kinds = front ++ .openParen :: inner ∧ front.length = i ∧ Leaves front opens ∧
      Balanced inner := by
  generalize hall : i :: opens = all at h
  induction h with
  | nil => cases hall
  | surplus hfront ih => cases hall
  | @balanced front inner opens' hfront hinner ih =>
    obtain ⟨first, middle, rfl, hi, hleaves, hmiddle⟩ := ih hall
    exact ⟨first, middle ++ inner, by simp, hi, hleaves, hmiddle.append hinner⟩
  | @opening front opens' hfront ih =>
    cases hall
    exact ⟨front, [], rfl, rfl, hfront, .nil⟩

/-- A closing parenthesis closes the last one that is open. -/
theorem closing (h : Leaves kinds (i :: opens)) :
    Leaves (kinds ++ [.closeParen]) opens ∧ Matches (kinds ++ [.closeParen]) i kinds.length := by
  obtain ⟨front, inner, rfl, rfl, hfront, hinner⟩ := h.exists_of_cons
  rw [List.append_assoc, List.cons_append]
  refine ⟨hfront.balanced (.nest hinner .nil), front, inner, [], rfl, hinner, rfl, ?_⟩
  rw [List.length_append, List.length_cons]
  omega

theorem exists_of_mem (h : Leaves kinds opens) (hi : i ∈ opens) :
    ∃ front rest, kinds = front ++ .openParen :: rest ∧ front.length = i ∧ ClosesNothing rest := by
  induction h with
  | nil => cases hi
  | surplus hfront ih => cases hi
  | @balanced front inner opens hfront hinner ih =>
    obtain ⟨first, rest, rfl, hlength, hrest⟩ := ih hi
    exact ⟨first, rest ++ inner, by simp, hlength, hrest.append hinner.closesNothing⟩
  | @opening front opens hfront ih =>
    rcases List.mem_cons.1 hi with rfl | hi
    · exact ⟨front, [], rfl, rfl, .nil⟩
    · obtain ⟨first, rest, rfl, hlength, hrest⟩ := ih hi
      exact ⟨first, rest ++ [.openParen], by simp, hlength, hrest.append .opening⟩

theorem exists_matches (h : Leaves kinds opens) (hopen : kinds[i]? = some .openParen)
    (hi : i ∉ opens) : ∃ j, Matches kinds i j := by
  induction h with
  | nil => simp at hopen
  | @surplus front hfront ih =>
    refine Matches.exists_of_append_cases _ hopen (fun hkind => ih hkind hi) fun n _ hkind => ?_
    cases List.mem_singleton.1 (List.mem_of_getElem? hkind)
  | @balanced front inner opens hfront hinner ih =>
    exact Matches.exists_of_append_cases _ hopen (fun hkind => ih hkind hi) fun n _ =>
      hinner.exists_matches
  | @opening front opens hfront ih =>
    rw [List.mem_cons, not_or] at hi
    -- The last parenthesis is open itself, so it is not the one that is asked for.
    refine Matches.exists_of_append_cases _ hopen (fun hkind => ih hkind hi.2) fun n hn hkind => ?_
    have hlt := (List.getElem?_eq_some_iff.1 hkind).1
    rw [List.length_singleton] at hlt
    exact absurd (by omega) hi.1

/-- What is left open are the opening parentheses without a match. -/
theorem mem_iff (h : Leaves kinds opens) :
    i ∈ opens ↔ kinds[i]? = some .openParen ∧ ∀ j, ¬ Matches kinds i j := by
  constructor
  · intro hi
    obtain ⟨front, rest, rfl, rfl, hrest⟩ := h.exists_of_mem hi
    exact ⟨by simp, hrest.not_matches⟩
  · rintro ⟨hopen, hnone⟩
    by_contra hi
    obtain ⟨j, hj⟩ := h.exists_matches hopen hi
    exact hnone j hj

theorem nodup (h : Leaves kinds opens) : opens.Nodup := by
  induction h with
  | nil => exact List.nodup_nil
  | surplus hfront ih => exact ih
  | balanced hfront hinner ih => exact ih
  | @opening front opens hfront ih =>
    refine List.nodup_cons.2 ⟨fun hmem => ?_, ih⟩
    have hlt := (List.getElem?_eq_some_iff.1 (hfront.mem_iff.1 hmem).1).1
    exact absurd hlt (Nat.lt_irrefl _)

end Leaves

/-- All tokens leave something open, if only nothing. -/
theorem exists_leaves (kinds : List TokenKind) : ∃ opens, Leaves kinds opens := by
  induction kinds using List.reverseRecOn with
  | nil => exact ⟨[], .nil⟩
  | append_singleton kinds kind ih =>
    obtain ⟨opens, hopens⟩ := ih
    by_cases hopen : kind = .openParen
    · rw [hopen]
      exact ⟨_, hopens.opening⟩
    · by_cases hclose : kind = .closeParen
      · rw [hclose]
        cases opens with
        | nil => exact ⟨_, hopens.surplus⟩
        | cons i opens => exact ⟨_, hopens.closing.1⟩
      · exact ⟨_, hopens.balanced (.other hopen hclose .nil)⟩

/-- What a token is inside is what is left open behind it, but for itself. -/
theorem encloses_iff {front behind : List TokenKind} {kind : TokenKind} {opens : List Nat} {i : Nat}
    (h : Leaves (front ++ [kind]) opens) :
    Encloses (front ++ kind :: behind) i front.length ↔ i ∈ opens ∧ i ≠ front.length := by
  have hlength : (front ++ [kind]).length = front.length + 1 := List.length_append
  rw [List.append_cons, h.mem_iff]
  constructor
  · rintro ⟨hopen, hlt, hmatches⟩
    rw [List.getElem?_append_left (by omega)] at hopen
    refine ⟨⟨hopen, fun j hj => ?_⟩, Nat.ne_of_lt hlt⟩
    -- Its match would be at the token itself at the earliest, which is where the front ends.
    have hj' := hmatches j (hj.append_right behind)
    have hend := hj.lt_length
    omega
  · rintro ⟨⟨hopen, hnone⟩, hne⟩
    have hlt := (List.getElem?_eq_some_iff.1 hopen).1
    refine ⟨by rwa [List.getElem?_append_left hlt], by omega, fun j hj => ?_⟩
    by_contra hle
    exact hnone j (hj.of_append (by omega))

/-! ## The counter -/

/-- The number of open parentheses behind some tokens, as a listing counts them. -/
def depthAfter (depth : Nat) (kinds : List TokenKind) : Nat :=
  kinds.foldl (fun depth kind => (Report.indentation depth kind).2) depth

/-- The indentations of some tokens, from a depth on. -/
def indentations : Nat → List TokenKind → List Nat
  | _, [] => []
  | depth, kind :: kinds =>
    (Report.indentation depth kind).1 :: indentations (Report.indentation depth kind).2 kinds

section

variable {kind : TokenKind} {kinds : List TokenKind}

theorem indentation_of_ne (hopen : kind ≠ .openParen) (hclose : kind ≠ .closeParen) (depth : Nat) :
    Report.indentation depth kind = (depth, depth) := by
  cases kind with
  | openParen => exact absurd rfl hopen
  | closeParen => exact absurd rfl hclose
  | _ => rfl

theorem depthAfter_append (depth : Nat) (front behind : List TokenKind) :
    depthAfter depth (front ++ behind) = depthAfter (depthAfter depth front) behind :=
  List.foldl_append

theorem length_indentations (depth : Nat) (kinds : List TokenKind) :
    (indentations depth kinds).length = kinds.length := by
  induction kinds generalizing depth with
  | nil => rfl
  | cons kind kinds ih => rw [indentations, List.length_cons, ih, List.length_cons]

theorem indentations_append (depth : Nat) (front behind : List TokenKind) :
    indentations depth (front ++ behind) =
      indentations depth front ++ indentations (depthAfter depth front) behind := by
  induction front generalizing depth with
  | nil => rfl
  | cons kind front ih => exact congrArg (_ :: ·) (ih _)

theorem getElem?_indentations (depth : Nat) (front : List TokenKind) (kind : TokenKind)
    (behind : List TokenKind) :
    (indentations depth (front ++ kind :: behind))[front.length]? =
      some (Report.indentation (depthAfter depth front) kind).1 := by
  have hlength := length_indentations depth front
  rw [indentations_append, List.getElem?_append_right (Nat.le_of_eq hlength), hlength, Nat.sub_self]
  rfl

theorem Balanced.depthAfter_eq (h : Balanced kinds) (depth : Nat) :
    depthAfter depth kinds = depth := by
  induction h generalizing depth with
  | nil => rfl
  | @other kind behind hopen hclose hbehind ih =>
    rw [← List.singleton_append, depthAfter_append, ih]
    exact congrArg Prod.snd (indentation_of_ne hopen hclose depth)
  | @nest inner behind hinner hbehind ihinner ihbehind =>
    rw [← List.singleton_append, depthAfter_append, depthAfter_append, ihinner]
    exact ihbehind depth

/-- Tokens whose parentheses match are nowhere indented less than the first of them. -/
theorem Balanced.le_of_mem_indentations (h : Balanced kinds) {depth n : Nat}
    (hn : n ∈ indentations depth kinds) : depth ≤ n := by
  induction h generalizing depth with
  | nil => cases hn
  | @other kind behind hopen hclose hbehind ih =>
    rw [indentations, indentation_of_ne hopen hclose] at hn
    rcases List.mem_cons.1 hn with rfl | hn
    · exact Nat.le_refl _
    · exact ih hn
  | @nest inner behind hinner hbehind ihinner ihbehind =>
    change n ∈ depth :: indentations (depth + 1) (inner ++ .closeParen :: behind) at hn
    rw [indentations_append, hinner.depthAfter_eq, List.mem_cons, List.mem_append] at hn
    change _ ∨ _ ∨ n ∈ depth :: indentations depth behind at hn
    rcases hn with rfl | hn | hn
    · exact Nat.le_refl _
    · exact Nat.le_of_succ_le (ihinner hn)
    · rcases List.mem_cons.1 hn with rfl | hn
      · exact Nat.le_refl _
      · exact ihbehind hn

/-- The counter is the height of the stack of parentheses that are open. -/
theorem Leaves.depthAfter_eq {opens : List Nat} (h : Leaves kinds opens) :
    depthAfter 0 kinds = opens.length := by
  induction h with
  | nil => rfl
  | surplus hfront ih =>
    rw [depthAfter_append, ih]
    rfl
  | balanced hfront hinner ih => rw [depthAfter_append, hinner.depthAfter_eq, ih]
  | opening hfront ih =>
    rw [depthAfter_append, ih]
    rfl

end

/-! ## Nesting -/

section

variable {kinds : List TokenKind}

/-- A token is indented by the number of parentheses that it is inside.  A closing parenthesis
is not inside the one that it matches. -/
theorem exists_enclosing (front : List TokenKind) (kind : TokenKind) (behind : List TokenKind) :
    ∃ opens : List Nat, opens.Nodup ∧
      (∀ i, i ∈ opens ↔ Encloses (front ++ kind :: behind) i front.length) ∧
      (Report.indentation (depthAfter 0 front) kind).1 = opens.length := by
  obtain ⟨opens, hopens⟩ := exists_leaves front
  rw [hopens.depthAfter_eq]
  by_cases hopen : kind = .openParen
  · subst hopen
    refine ⟨opens, hopens.nodup, fun i => ?_, rfl⟩
    rw [encloses_iff hopens.opening, List.mem_cons]
    have hlt : i ∈ opens → i ≠ front.length := fun hi =>
      Nat.ne_of_lt (List.getElem?_eq_some_iff.1 (hopens.mem_iff.1 hi).1).1
    tauto
  · -- the token is no opening parenthesis, so it is none of those left open behind it
    have hall : ∀ later, Leaves (front ++ [kind]) later →
        ∀ i, i ∈ later ↔ Encloses (front ++ kind :: behind) i front.length := by
      intro later hlater i
      rw [encloses_iff hlater, iff_self_and]
      rintro hi rfl
      have hkind := (hlater.mem_iff.1 hi).1
      rw [List.getElem?_concat_length, Option.some.injEq] at hkind
      exact hopen hkind
    by_cases hclose : kind = .closeParen
    · subst hclose
      cases opens with
      | nil => exact ⟨[], List.nodup_nil, hall _ hopens.surplus, rfl⟩
      | cons i opens => exact ⟨opens, hopens.closing.1.nodup, hall _ hopens.closing.1, rfl⟩
    · refine ⟨opens, hopens.nodup, hall _ (hopens.balanced (.other hopen hclose .nil)), ?_⟩
      rw [indentation_of_ne hopen hclose]

/-- The indentation of a listing shows the nesting of its tokens.  The lines of matching
parentheses begin below each other, and every line between them two spaces further in at least.  A
closing parenthesis that matches none, and what is inside no parenthesis, are not indented; in
general a token is indented by two spaces for each parenthesis that it is inside. -/
structure ShowsNesting (kinds : List TokenKind) (widths : List Nat) : Prop where
  length_eq : widths.length = kinds.length
  of_matches : ∀ i j, Matches kinds i j →
    ∃ width, widths[i]? = some width ∧ widths[j]? = some width ∧
      ∀ k, i < k → k < j → ∃ width', widths[k]? = some width' ∧ width + 2 ≤ width'
  of_unmatched : ∀ j, kinds[j]? = some .closeParen → (∀ i, ¬ Matches kinds i j) →
    widths[j]? = some 0
  of_outside : ∀ k, k < kinds.length → (∀ i, ¬ Encloses kinds i k) → widths[k]? = some 0
  of_enclosed : ∀ k, k < kinds.length →
    ∃ opens : List Nat, opens.Nodup ∧ (∀ i, i ∈ opens ↔ Encloses kinds i k) ∧
      widths[k]? = some (2 * opens.length)

/-- Matching parentheses are indented alike, and what is between them is indented more. -/
theorem Matches.indentations {i j : Nat} (h : Matches kinds i j) :
    ∃ n, (indentations 0 kinds)[i]? = some n ∧ (indentations 0 kinds)[j]? = some n ∧
      ∀ k, i < k → k < j → ∃ m, (indentations 0 kinds)[k]? = some m ∧ n + 1 ≤ m := by
  obtain ⟨front, inner, behind, rfl, hinner, rfl, rfl⟩ := h
  have hopening : depthAfter 0 (front ++ [.openParen]) = depthAfter 0 front + 1 :=
    depthAfter_append 0 front [.openParen]
  refine ⟨depthAfter 0 front, getElem?_indentations 0 front _ _, ?_, fun k hi hj => ?_⟩
  -- What is in between is balanced, so the counter is back where it was inside the opening one.
  · have hdepth : depthAfter 0 (front ++ .openParen :: inner) = depthAfter 0 front + 1 := by
      rw [List.append_cons, depthAfter_append, hinner.depthAfter_eq, hopening]
    have hclosing := getElem?_indentations 0 (front ++ .openParen :: inner) .closeParen behind
    rw [hdepth, List.length_append, List.length_cons, ← Nat.add_assoc, List.append_assoc,
      List.cons_append] at hclosing
    exact hclosing
  -- Inside, the counter starts one higher, and balanced tokens do not go below where they start.
  · obtain ⟨n, rfl⟩ := Nat.exists_eq_add_of_lt hi
    have hlength : (indentations 0 (front ++ [.openParen])).length = front.length + 1 := by
      rw [length_indentations, List.length_append, List.length_singleton]
    have hn : n < (indentations (depthAfter 0 front + 1) inner).length := by
      rw [length_indentations]
      omega
    refine ⟨_, ?_, hinner.le_of_mem_indentations (List.getElem_mem hn)⟩
    have hindex : front.length + n + 1 - (front.length + 1) = n := by omega
    rw [List.append_cons, indentations_append 0 (front ++ [TokenKind.openParen]), hopening,
      List.getElem?_append_right (by omega), hlength, hindex, indentations_append,
      List.getElem?_append_left hn, List.getElem?_eq_getElem hn]

theorem exists_eq_append_of_lt {k : Nat} (h : k < kinds.length) :
    ∃ front kind behind, kinds = front ++ kind :: behind ∧ front.length = k :=
  ⟨kinds.take k, kinds[k], kinds.drop (k + 1), by simp, by simp; omega⟩

/-- A closing parenthesis that matches none is inside no parenthesis. -/
theorem not_encloses_of_unmatched {j : Nat} (hclose : kinds[j]? = some .closeParen)
    (hnone : ∀ i, ¬ Matches kinds i j) (i : Nat) : ¬ Encloses kinds i j := by
  obtain ⟨front, kind, behind, rfl, rfl⟩ :=
    exists_eq_append_of_lt (List.getElem?_eq_some_iff.1 hclose).1
  rw [List.getElem?_append_right (Nat.le_refl _), Nat.sub_self, List.getElem?_cons_zero,
    Option.some.injEq] at hclose
  subst hclose
  obtain ⟨opens, hopens⟩ := exists_leaves front
  cases opens with
  | nil =>
    rw [encloses_iff hopens.surplus]
    simp
  | cons i' opens =>
    have hmatches := hopens.closing.2.append_right behind
    rw [List.append_assoc, List.singleton_append] at hmatches
    exact absurd hmatches (hnone i')

/-- **The counter of a listing is the true nesting of its tokens.** -/
theorem showsNesting (kinds : List TokenKind) :
    ShowsNesting kinds ((indentations 0 kinds).map (2 * ·)) := by
  -- Widths are two spaces for each level, so everything is shown for the levels first.
  have hget : ∀ (k n : Nat), (indentations 0 kinds)[k]? = some n →
      ((indentations 0 kinds).map (2 * ·))[k]? = some (2 * n) := by
    intro k n hk
    rw [List.getElem?_map, hk, Option.map_some]
  have henclosed : ∀ k, k < kinds.length →
      ∃ opens : List Nat, opens.Nodup ∧ (∀ i, i ∈ opens ↔ Encloses kinds i k) ∧
        ((indentations 0 kinds).map (2 * ·))[k]? = some (2 * opens.length) := by
    intro k hk
    obtain ⟨front, kind, behind, rfl, rfl⟩ := exists_eq_append_of_lt hk
    obtain ⟨opens, hnodup, hopens, hindentation⟩ := exists_enclosing front kind behind
    have hfront := getElem?_indentations 0 front kind behind
    rw [hindentation] at hfront
    exact ⟨opens, hnodup, hopens, hget _ _ hfront⟩
  have houtside : ∀ k, k < kinds.length → (∀ i, ¬ Encloses kinds i k) →
      ((indentations 0 kinds).map (2 * ·))[k]? = some 0 := by
    intro k hk hnone
    obtain ⟨opens, -, hopens, hwidth⟩ := henclosed k hk
    have hnil : opens = [] :=
      List.eq_nil_iff_forall_not_mem.2 fun i hi => hnone i ((hopens i).1 hi)
    rwa [hnil] at hwidth
  refine ⟨by rw [List.length_map, length_indentations], fun i j h => ?_, fun j hj hnone => ?_,
    houtside, henclosed⟩
  · obtain ⟨n, hi, hj, hbetween⟩ := h.indentations
    refine ⟨2 * n, hget i n hi, hget j n hj, fun k hik hkj => ?_⟩
    obtain ⟨m, hk, hle⟩ := hbetween k hik hkj
    exact ⟨2 * m, hget k m hk, by omega⟩
  · exact houtside j (List.getElem?_eq_some_iff.1 hj).1 (not_encloses_of_unmatched hj hnone)

end

end SmallLisp

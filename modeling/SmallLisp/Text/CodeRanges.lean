/-!
# Sets of code points

A property of characters is data: the code points that have it, written as inclusive ranges in
ascending order.  The order is what makes the search cheap — it stops at the first range that
begins above the code point — and it is the only thing a table has to promise.
-/

namespace SmallLisp

/-- A set of code points as inclusive ranges, each one above the one before. -/
abbrev CodeRanges := List (Nat × Nat)

namespace CodeRanges

/-- Whether a code point is in the set.  The ranges ascend, so the search ends at the first one
that starts above `n`. -/
def contains : CodeRanges → Nat → Bool
  | [], _ => false
  | (lo, hi) :: rest, n => if n < lo then false else n ≤ hi || contains rest n

/-- Ascending, with no two ranges overlapping. -/
def ascending : CodeRanges → Bool
  | [] => true
  | [(lo, hi)] => lo ≤ hi
  | (lo, hi) :: (lo', hi') :: rest =>
    decide (lo ≤ hi) && decide (hi < lo') && ascending ((lo', hi') :: rest)

@[simp] theorem contains_nil (n : Nat) : contains [] n = false := rfl

theorem contains_cons (lo hi : Nat) (rest : CodeRanges) (n : Nat) :
    contains ((lo, hi) :: rest) n =
      if n < lo then false else n ≤ hi || contains rest n := rfl

/-- What the search finds lies in one of the ranges. -/
theorem exists_of_contains {rs : CodeRanges} {n : Nat} (h : rs.contains n = true) :
    ∃ r ∈ rs, r.1 ≤ n ∧ n ≤ r.2 := by
  induction rs with
  | nil => simp at h
  | cons r rest ih =>
    obtain ⟨lo, hi⟩ := r
    rw [contains_cons] at h
    split at h
    · simp at h
    · next hlo =>
      rcases Bool.or_eq_true_iff.1 h with h | h
      · exact ⟨(lo, hi), by simp, Nat.le_of_not_lt hlo, by simpa using h⟩
      · obtain ⟨r, hr, hn⟩ := ih h
        exact ⟨r, List.mem_cons_of_mem _ hr, hn⟩

end CodeRanges
end SmallLisp

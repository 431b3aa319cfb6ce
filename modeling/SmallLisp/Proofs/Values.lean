import SmallLisp.Expr.Equality
import SmallLisp.Proofs.Canonical

/-!
# Trees up to the values of their reals

Two trees count as equal if their reals have the same values, and the only doubles of the same
value that differ are the two zeros.  So equality of trees is equality after the sign of every
zero is dropped.  That in turn is one way of changing the reals in a tree, and nothing but the
reals depends on how they are changed: neither the shape nor the names nor the depth of a tree.
-/

namespace SmallLisp

/-- The double of the same value whose zero has no sign. -/
def Binary64.dropZeroSign (x : Binary64) : Binary64 :=
  if x.magnitude = 0 then ⟨false, 0, by decide⟩ else x

theorem Binary64.dropZeroSign_eq_of_same {x y : Binary64} (h : x.same y = true) :
    x.dropZeroSign = y.dropZeroSign := by
  simp only [same, Bool.and_eq_true, Bool.or_eq_true, beq_iff_eq] at h
  rcases h.2 with rfl | ⟨hx, hy⟩
  · rfl
  · rw [dropZeroSign, dropZeroSign, if_pos hx, if_pos hy]

theorem Binary64.isFinite_dropZeroSign (x : Binary64) :
    x.dropZeroSign.isFinite = x.isFinite := by
  unfold dropZeroSign
  split
  · next h => simp [isFinite, h]
  · rfl

theorem Binary64.isNaN_dropZeroSign (x : Binary64) : x.dropZeroSign.isNaN = x.isNaN := by
  unfold dropZeroSign
  split
  · next h => simp [isNaN, h]
  · rfl

/-- Doubles that differ in the sign of a zero only have the same value, unless they have none. -/
theorem Binary64.same_of_dropZeroSign_eq {x y : Binary64} (hx : x.isNaN = false)
    (h : x.dropZeroSign = y.dropZeroSign) : x.same y = true := by
  have hy : y.isNaN = false := by
    rw [← isNaN_dropZeroSign, ← h, isNaN_dropZeroSign, hx]
  have hzero : x = y ∨ x.magnitude = 0 ∧ y.magnitude = 0 := by
    unfold dropZeroSign at h
    split at h
    · next hxzero =>
      split at h
      · next hyzero => exact .inr ⟨hxzero, hyzero⟩
      · next hyzero => exact absurd (congrArg magnitude h.symm) hyzero
    · next hxzero =>
      split at h
      · next hyzero => exact absurd (congrArg magnitude h) hxzero
      · exact .inl h
  rcases hzero with rfl | ⟨hxzero, hyzero⟩
  · exact same_self hx
  · simp [same, hx, hy, hxzero, hyzero]

/-! ## Changing the reals -/

variable (f : Binary64 → Binary64)

mutual

/-- A tree with its reals changed. -/
def Expr.mapReals : Expr → Expr
  | .integer n => .integer n
  | .real x => .real (f x)
  | .boolean b => .boolean b
  | .identifier name => .identifier name
  | .string s => .string s
  | .list items => .list (mapRealsAll items)
  | .call function arguments => .call function (mapRealsAll arguments)
  | .quote e => .quote e.mapReals
  | .setq name value => .setq name value.mapReals
  | .cond test yes none => .cond test.mapReals yes.mapReals none
  | .cond test yes (some no) => .cond test.mapReals yes.mapReals (some no.mapReals)
  | .func name parameters body => .func name parameters (mapRealsAll body)
  | .lambda parameters body => .lambda parameters body.mapReals
  | .lambdaCall parameters body arguments =>
    .lambdaCall parameters body.mapReals (mapRealsAll arguments)
  | .prog parameters body => .prog parameters (mapRealsAll body)
  | .whileLoop condition body => .whileLoop condition.mapReals (mapRealsAll body)

/-- A sequence of trees with their reals changed. -/
def Expr.mapRealsAll : List Expr → List Expr
  | [] => []
  | e :: es => e.mapReals :: mapRealsAll es

end

theorem Expr.mapRealsAll_eq_map (es : List Expr) : mapRealsAll f es = es.map (mapReals f) := by
  induction es with
  | nil => rfl
  | cons e es ih => rw [mapRealsAll, ih, List.map_cons]

theorem Expr.mapReals_cond (test yes : Expr) (no : Option Expr) :
    (cond test yes no).mapReals f =
      .cond (test.mapReals f) (yes.mapReals f) (no.map (mapReals f)) := by
  cases no <;> rfl

theorem Expr.headsForm_mapReals (e : Expr) : (e.mapReals f).headsForm = e.headsForm := by
  cases e with
  | cond test yes no => cases no <;> rfl
  | _ => rfl

mutual

theorem Expr.isRegular_mapReals (readsForms : Bool) (e : Expr) :
    (e.mapReals f).isRegular readsForms = e.isRegular readsForms := by
  cases e with
  | list items =>
    have hhead : (mapRealsAll f items).head?.any headsForm = items.head?.any headsForm := by
      cases items with
      | nil => rfl
      | cons e es => simp [mapRealsAll, headsForm_mapReals]
    simp only [mapReals, isRegular, hhead, isRegularAll_mapReals readsForms items]
  | cond test yes no =>
    cases no with
    | none =>
      simp only [mapReals, isRegular, isRegular_mapReals readsForms test,
        isRegular_mapReals readsForms yes]
    | some no =>
      simp only [mapReals, isRegular, isRegular_mapReals readsForms test,
        isRegular_mapReals readsForms yes, isRegular_mapReals readsForms no]
  | call function arguments =>
    simp only [mapReals, isRegular, isRegularAll_mapReals readsForms arguments]
  | quote e => simp only [mapReals, isRegular, isRegular_mapReals readsForms e]
  | setq name value => simp only [mapReals, isRegular, isRegular_mapReals readsForms value]
  | func name parameters body =>
    simp only [mapReals, isRegular, isRegularAll_mapReals readsForms body]
  | lambda parameters body =>
    simp only [mapReals, isRegular, isRegular_mapReals readsForms body]
  | lambdaCall parameters body arguments =>
    simp only [mapReals, isRegular, isRegular_mapReals readsForms body,
      isRegularAll_mapReals readsForms arguments]
  | prog parameters body =>
    simp only [mapReals, isRegular, isRegularAll_mapReals readsForms body]
  | whileLoop condition body =>
    simp only [mapReals, isRegular, isRegular_mapReals readsForms condition,
      isRegularAll_mapReals readsForms body]
  | _ => rfl

theorem Expr.isRegularAll_mapReals (readsForms : Bool) (es : List Expr) :
    isRegularAll readsForms (mapRealsAll f es) = isRegularAll readsForms es := by
  cases es with
  | nil => rfl
  | cons e es =>
    simp only [mapRealsAll, isRegularAll, isRegular_mapReals readsForms e,
      isRegularAll_mapReals readsForms es]

end

mutual

theorem Expr.depth_mapReals (e : Expr) : (e.mapReals f).depth = e.depth := by
  cases e with
  | cond test yes no =>
    cases no with
    | none => simp only [mapReals, depth, depth_mapReals test, depth_mapReals yes]
    | some no =>
      simp only [mapReals, depth, depth_mapReals test, depth_mapReals yes, depth_mapReals no]
  | list items => simp only [mapReals, depth, depthAll_mapReals items]
  | call function arguments => simp only [mapReals, depth, depthAll_mapReals arguments]
  | quote e => simp only [mapReals, depth, depth_mapReals e]
  | setq name value => simp only [mapReals, depth, depth_mapReals value]
  | func name parameters body => simp only [mapReals, depth, depthAll_mapReals body]
  | lambda parameters body => simp only [mapReals, depth, depth_mapReals body]
  | lambdaCall parameters body arguments =>
    simp only [mapReals, depth, depth_mapReals body, depthAll_mapReals arguments]
  | prog parameters body => simp only [mapReals, depth, depthAll_mapReals body]
  | whileLoop condition body =>
    simp only [mapReals, depth, depth_mapReals condition, depthAll_mapReals body]
  | _ => rfl

theorem Expr.depthAll_mapReals (es : List Expr) : depthAll (mapRealsAll f es) = depthAll es := by
  cases es with
  | nil => rfl
  | cons e es => simp only [mapRealsAll, depthAll, depth_mapReals e, depthAll_mapReals es]

end

mutual

theorem Expr.reals_mapReals (e : Expr) : (e.mapReals f).reals = e.reals.map f := by
  cases e with
  | cond test yes no =>
    cases no with
    | none =>
      simp only [mapReals, reals, reals_mapReals test, reals_mapReals yes, List.map_append]
    | some no =>
      simp only [mapReals, reals, reals_mapReals test, reals_mapReals yes, reals_mapReals no,
        List.map_append]
  | list items => simp only [mapReals, reals, realsAll_mapReals items]
  | call function arguments => simp only [mapReals, reals, realsAll_mapReals arguments]
  | quote e => simp only [mapReals, reals, reals_mapReals e]
  | setq name value => simp only [mapReals, reals, reals_mapReals value]
  | func name parameters body => simp only [mapReals, reals, realsAll_mapReals body]
  | lambda parameters body => simp only [mapReals, reals, reals_mapReals body]
  | lambdaCall parameters body arguments =>
    simp only [mapReals, reals, reals_mapReals body, realsAll_mapReals arguments,
      List.map_append]
  | prog parameters body => simp only [mapReals, reals, realsAll_mapReals body]
  | whileLoop condition body =>
    simp only [mapReals, reals, reals_mapReals condition, realsAll_mapReals body,
      List.map_append]
  | _ => rfl

theorem Expr.realsAll_mapReals (es : List Expr) :
    realsAll (mapRealsAll f es) = (realsAll es).map f := by
  cases es with
  | nil => rfl
  | cons e es =>
    simp only [mapRealsAll, realsAll, reals_mapReals e, realsAll_mapReals es, List.map_append]

end

/-! ## Equal trees -/

mutual

/-- Equal trees differ in nothing but the signs of zeros. -/
theorem Expr.mapReals_eq_of_same {d e : Expr} (h : d.same e = true) :
    d.mapReals Binary64.dropZeroSign = e.mapReals Binary64.dropZeroSign := by
  cases d with
  | integer m =>
    cases e with
    | integer n =>
      rw [eq_of_beq h]
    | _ => simp [same] at h
  | real x =>
    cases e with
    | real y => rw [mapReals, mapReals, Binary64.dropZeroSign_eq_of_same h]
    | _ => simp [same] at h
  | boolean a =>
    cases e with
    | boolean b => rw [eq_of_beq h]
    | _ => simp [same] at h
  | identifier a =>
    cases e with
    | identifier b => rw [eq_of_beq h]
    | _ => simp [same] at h
  | string a =>
    cases e with
    | string b => rw [eq_of_beq h]
    | _ => simp [same] at h
  | list xs =>
    cases e with
    | list ys => rw [mapReals, mapReals, mapRealsAll_eq_of_sameAll h]
    | _ => simp [same] at h
  | call f xs =>
    cases e with
    | call g ys =>
      simp only [same, Bool.and_eq_true, beq_iff_eq] at h
      rw [mapReals, mapReals, h.1, mapRealsAll_eq_of_sameAll h.2]
    | _ => simp [same] at h
  | quote d =>
    cases e with
    | quote e =>
      have hde : d.same e = true := h
      rw [mapReals, mapReals, mapReals_eq_of_same hde]
    | _ => simp [same] at h
  | setq m d =>
    cases e with
    | setq n e =>
      simp only [same, Bool.and_eq_true, beq_iff_eq] at h
      rw [mapReals, mapReals, h.1, mapReals_eq_of_same h.2]
    | _ => simp [same] at h
  | cond c y no =>
    cases e with
    | cond c' y' no' =>
      cases no with
      | none =>
        cases no' with
        | none =>
          simp only [same, Bool.and_eq_true] at h
          rw [mapReals, mapReals, mapReals_eq_of_same h.1, mapReals_eq_of_same h.2]
        | some n' => simp [same] at h
      | some n =>
        cases no' with
        | none => simp [same] at h
        | some n' =>
          simp only [same, Bool.and_eq_true] at h
          obtain ⟨⟨hc, hy⟩, hn⟩ := h
          rw [mapReals, mapReals, mapReals_eq_of_same hc, mapReals_eq_of_same hy,
            mapReals_eq_of_same hn]
    | _ => simp [same] at h
  | func f ps b =>
    cases e with
    | func g qs c =>
      simp only [same, Bool.and_eq_true, beq_iff_eq] at h
      rw [mapReals, mapReals, h.1.1, h.1.2, mapRealsAll_eq_of_sameAll h.2]
    | _ => simp [same] at h
  | lambda ps b =>
    cases e with
    | lambda qs c =>
      simp only [same, Bool.and_eq_true, beq_iff_eq] at h
      rw [mapReals, mapReals, h.1, mapReals_eq_of_same h.2]
    | _ => simp [same] at h
  | lambdaCall ps b xs =>
    cases e with
    | lambdaCall qs c ys =>
      simp only [same, Bool.and_eq_true, beq_iff_eq] at h
      rw [mapReals, mapReals, h.1.1, mapReals_eq_of_same h.1.2, mapRealsAll_eq_of_sameAll h.2]
    | _ => simp [same] at h
  | prog ps b =>
    cases e with
    | prog qs c =>
      simp only [same, Bool.and_eq_true, beq_iff_eq] at h
      rw [mapReals, mapReals, h.1, mapRealsAll_eq_of_sameAll h.2]
    | _ => simp [same] at h
  | whileLoop c b =>
    cases e with
    | whileLoop c' b' =>
      simp only [same, Bool.and_eq_true] at h
      rw [mapReals, mapReals, mapReals_eq_of_same h.1, mapRealsAll_eq_of_sameAll h.2]
    | _ => simp [same] at h

theorem Expr.mapRealsAll_eq_of_sameAll {ds es : List Expr} (h : sameAll ds es = true) :
    mapRealsAll Binary64.dropZeroSign ds = mapRealsAll Binary64.dropZeroSign es := by
  cases ds with
  | nil =>
    cases es with
    | nil => rfl
    | cons e es => simp [sameAll] at h
  | cons d ds =>
    cases es with
    | nil => simp [sameAll] at h
    | cons e es =>
      simp only [sameAll, Bool.and_eq_true] at h
      rw [mapRealsAll, mapRealsAll, mapReals_eq_of_same h.1, mapRealsAll_eq_of_sameAll h.2]

end

mutual

/-- Trees that differ in nothing but the signs of zeros are equal, if there is no NaN in
them. -/
theorem Expr.same_of_mapReals_eq {d e : Expr} (hd : ∀ x ∈ d.reals, x.isNaN = false)
    (h : d.mapReals Binary64.dropZeroSign = e.mapReals Binary64.dropZeroSign) :
    d.same e = true := by
  cases d with
  | integer m =>
    cases e with
    | integer n =>
      cases h
      simp [same]
    | _ => simp [mapReals, mapReals_cond] at h
  | real x =>
    cases e with
    | real y =>
      simp only [mapReals, real.injEq] at h
      exact Binary64.same_of_dropZeroSign_eq (hd x (by simp [reals])) h
    | _ => simp [mapReals, mapReals_cond] at h
  | boolean a =>
    cases e with
    | boolean b =>
      cases h
      simp [same]
    | _ => simp [mapReals, mapReals_cond] at h
  | identifier a =>
    cases e with
    | identifier b =>
      cases h
      simp [same]
    | _ => simp [mapReals, mapReals_cond] at h
  | string a =>
    cases e with
    | string b =>
      cases h
      simp [same]
    | _ => simp [mapReals, mapReals_cond] at h
  | list xs =>
    cases e with
    | list ys =>
      simp only [mapReals, list.injEq] at h
      exact sameAll_of_mapRealsAll_eq hd h
    | _ => simp [mapReals, mapReals_cond] at h
  | call f xs =>
    cases e with
    | call g ys =>
      simp only [mapReals, call.injEq] at h
      simp only [same, h.1, beq_self_eq_true, sameAll_of_mapRealsAll_eq hd h.2, Bool.and_self]
    | _ => simp [mapReals, mapReals_cond] at h
  | quote d =>
    cases e with
    | quote e =>
      simp only [mapReals, quote.injEq] at h
      exact same_of_mapReals_eq (d := d) hd h
    | _ => simp [mapReals, mapReals_cond] at h
  | setq m d =>
    cases e with
    | setq n e =>
      simp only [mapReals, setq.injEq] at h
      simp only [same, h.1, beq_self_eq_true, same_of_mapReals_eq (d := d) hd h.2, Bool.and_self]
    | _ => simp [mapReals, mapReals_cond] at h
  | cond c y no =>
    cases e with
    | cond c' y' no' =>
      cases no with
      | none =>
        cases no' with
        | none =>
          simp only [reals, List.forall_mem_append] at hd
          simp only [mapReals, cond.injEq] at h
          simp only [same, same_of_mapReals_eq hd.1 h.1, same_of_mapReals_eq hd.2 h.2.1,
            Bool.and_self]
        | some n' => simp [mapReals] at h
      | some n =>
        cases no' with
        | none => simp [mapReals] at h
        | some n' =>
          simp only [reals, List.forall_mem_append] at hd
          simp only [mapReals, cond.injEq, Option.some.injEq] at h
          simp only [same, same_of_mapReals_eq hd.1.1 h.1, same_of_mapReals_eq hd.1.2 h.2.1,
            same_of_mapReals_eq hd.2 h.2.2, Bool.and_self]
    | _ => simp [mapReals, mapReals_cond] at h
  | func f ps b =>
    cases e with
    | func g qs c =>
      simp only [mapReals, func.injEq] at h
      simp only [same, h.1, h.2.1, beq_self_eq_true, sameAll_of_mapRealsAll_eq hd h.2.2,
        Bool.and_self]
    | _ => simp [mapReals, mapReals_cond] at h
  | lambda ps b =>
    cases e with
    | lambda qs c =>
      simp only [mapReals, lambda.injEq] at h
      simp only [same, h.1, beq_self_eq_true, same_of_mapReals_eq (d := b) hd h.2, Bool.and_self]
    | _ => simp [mapReals, mapReals_cond] at h
  | lambdaCall ps b xs =>
    cases e with
    | lambdaCall qs c ys =>
      simp only [reals, List.forall_mem_append] at hd
      simp only [mapReals, lambdaCall.injEq] at h
      simp only [same, h.1, beq_self_eq_true, same_of_mapReals_eq hd.1 h.2.1,
        sameAll_of_mapRealsAll_eq hd.2 h.2.2, Bool.and_self]
    | _ => simp [mapReals, mapReals_cond] at h
  | prog ps b =>
    cases e with
    | prog qs c =>
      simp only [mapReals, prog.injEq] at h
      simp only [same, h.1, beq_self_eq_true, sameAll_of_mapRealsAll_eq hd h.2, Bool.and_self]
    | _ => simp [mapReals, mapReals_cond] at h
  | whileLoop c b =>
    cases e with
    | whileLoop c' b' =>
      simp only [reals, List.forall_mem_append] at hd
      simp only [mapReals, whileLoop.injEq] at h
      simp only [same, same_of_mapReals_eq hd.1 h.1, sameAll_of_mapRealsAll_eq hd.2 h.2,
        Bool.and_self]
    | _ => simp [mapReals, mapReals_cond] at h

theorem Expr.sameAll_of_mapRealsAll_eq {ds es : List Expr}
    (hds : ∀ x ∈ realsAll ds, x.isNaN = false)
    (h : mapRealsAll Binary64.dropZeroSign ds = mapRealsAll Binary64.dropZeroSign es) :
    sameAll ds es = true := by
  cases ds with
  | nil =>
    cases es with
    | nil => rfl
    | cons e es => cases h
  | cons d ds =>
    cases es with
    | nil => cases h
    | cons e es =>
      simp only [realsAll, List.forall_mem_append] at hds
      simp only [mapRealsAll, List.cons.injEq] at h
      simp only [sameAll, same_of_mapReals_eq hds.1 h.1, sameAll_of_mapRealsAll_eq hds.2 h.2,
        Bool.and_self]

end

/-- A program without a NaN is equal to itself. -/
theorem Program.same_self {p : Program} (h : ∀ x ∈ p.reals, x.isNaN = false) :
    p.same p = true :=
  Expr.sameAll_of_mapRealsAll_eq h rfl

/-- Equal programs are regular together. -/
theorem Program.isRegularAll_of_same {readsForms : Bool} {p q : Program} (h : p.same q = true)
    (hp : Expr.isRegularAll readsForms p.expressions = true) :
    Expr.isRegularAll readsForms q.expressions = true := by
  rw [← Expr.isRegularAll_mapReals Binary64.dropZeroSign, ← Expr.mapRealsAll_eq_of_sameAll h,
    Expr.isRegularAll_mapReals]
  exact hp

/-- **Being canonical does not depend on the signs of zeros**, so equal programs are canonical
together. -/
theorem Program.isCanonical_of_same {d : Dialect} {p q : Program} (h : p.same q = true)
    (hp : p.isCanonical d = true) : q.isCanonical d = true := by
  have hmap := Expr.mapRealsAll_eq_of_sameAll h
  rw [Program.isCanonical_iff] at hp ⊢
  obtain ⟨hregular, hfinite, hdepth⟩ := hp
  refine ⟨isRegularAll_of_same h hregular, ?_, ?_⟩
  · intro y hy
    have hreals := congrArg Expr.realsAll hmap
    rw [Expr.realsAll_mapReals, Expr.realsAll_mapReals] at hreals
    have hmem : y.dropZeroSign ∈ (Expr.realsAll p.expressions).map Binary64.dropZeroSign := by
      rw [hreals]
      exact List.mem_map_of_mem hy
    obtain ⟨x, hx, hxy⟩ := List.mem_map.1 hmem
    rw [← Binary64.isFinite_dropZeroSign, ← hxy, Binary64.isFinite_dropZeroSign]
    exact hfinite x hx
  · rw [Program.depth, ← Expr.depthAll_mapReals Binary64.dropZeroSign, ← hmap,
      Expr.depthAll_mapReals]
    exact hdepth

end SmallLisp

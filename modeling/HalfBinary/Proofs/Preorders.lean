import Mathlib
import HalfBinary.Condition
import HalfBinary.Proofs.Conformance

/-!
# One preorder for each type

The values of a scalar kind are compared by their keys, whatever the literal was converted from. So
the tests against all literals of a type belong to one total preorder of its values: each of them
finds an initial or a final part of it, and such parts are nested (`resolve_preorder`).
-/

namespace HalfBinary

instance : Std.TransOrd Date :=
  inferInstanceAs (Std.TransCmp (compareLex (compareOn Date.year)
    (compareLex (compareOn Date.month) (compareOn Date.day))))

instance : Std.TransOrd Instant :=
  inferInstanceAs (Std.TransCmp (compareOn Instant.nanoseconds))

/-! ### The order of values -/

namespace ScalarKind

instance : (kind : ScalarKind) → Std.TransOrd kind.Key
  | integer | decimal => inferInstanceAs (Std.TransOrd ℚ)
  | text => inferInstanceAs (Std.TransOrd String)
  | boolean => inferInstanceAs (Std.TransOrd Bool)
  | date => inferInstanceAs (Std.TransOrd Date)
  | dateTime => inferInstanceAs (Std.TransOrd Instant)

/-- A value of the kind comes before another or together with it. -/
def Le (kind : ScalarKind) (v w : Json) : Prop :=
  ∃ i k, kind.key? v = some i ∧ kind.key? w = some k ∧ (compare i k).isLE = true

theorem le_total {kind : ScalarKind} {v w : Json} (holds : kind.Holds v) (holds' : kind.Holds w) :
    kind.Le v w ∨ kind.Le w v := by
  obtain ⟨i, foundI⟩ := Option.isSome_iff_exists.1 (holds_iff_isSome_key?.1 holds)
  obtain ⟨k, foundK⟩ := Option.isSome_iff_exists.1 (holds_iff_isSome_key?.1 holds')
  have above (o : Ordering) : o.isLE = false → o.isGE = true := by cases o <;> decide
  rcases below : (compare i k).isLE with _ | _
  · exact .inr ⟨k, i, foundK, foundI, Std.OrientedCmp.isLE_of_isGE (above _ below)⟩
  · exact .inl ⟨i, k, foundI, foundK, below⟩

end ScalarKind

/-! ### Parts of the order -/

section

variable {κ : Type} [Ord κ] [Std.TransOrd κ] {op : Operator} {i k bound : κ}

theorem Operator.accepts_of_isLE (mem : op ∈ [lt, le]) (below : (compare i k).isLE = true)
    (accepts : op.accepts (compare k bound) = true) : op.accepts (compare i bound) = true := by
  rcases List.mem_pair.1 mem with rfl | rfl
  · have less : compare k bound = .lt := by simpa [Operator.accepts] using accepts
    simp [Operator.accepts, Std.TransCmp.lt_of_isLE_of_lt below less]
  · exact Std.TransCmp.isLE_trans below accepts

theorem Operator.accepts_of_isGE (mem : op ∈ [gt, ge]) (below : (compare i k).isLE = true)
    (accepts : op.accepts (compare i bound) = true) : op.accepts (compare k bound) = true := by
  have above : (compare k i).isGE = true := Std.OrientedCmp.isGE_of_isLE below
  rcases List.mem_pair.1 mem with rfl | rfl
  · have greater : compare i bound = .gt := by simpa [Operator.accepts] using accepts
    simp [Operator.accepts, Std.TransCmp.gt_of_isGE_of_gt above greater]
  · exact Std.TransCmp.isGE_trans above accepts

end

/-- A set of values of a kind that has, with a value, all that are related to it. -/
structure ScalarKind.IsClosed (kind : ScalarKind) (r : Json → Json → Prop) (s : Set Json) :
    Prop where
  holds : ∀ value ∈ s, kind.Holds value
  closed : ∀ v w, r v w → w ∈ s → v ∈ s

/-- Closed sets of values are nested. -/
theorem ScalarKind.IsClosed.subset_or_subset {kind : ScalarKind} {r : Json → Json → Prop}
    (total : ∀ v w, kind.Holds v → kind.Holds w → r v w ∨ r w v) {s t : Set Json}
    (first : kind.IsClosed r s) (second : kind.IsClosed r t) : s ⊆ t ∨ t ⊆ s := by
  by_contra crossed
  obtain ⟨notS, notT⟩ := not_or.1 crossed
  obtain ⟨v, inS, outT⟩ := Set.not_subset.1 notS
  obtain ⟨w, inT, outS⟩ := Set.not_subset.1 notT
  rcases total v w (first.holds v inS) (second.holds w inT) with related | related
  · exact outT (second.closed v w related inT)
  · exact outS (first.closed w v related inS)

namespace Comparator

/-- The values that a comparator accepts. -/
def accepted (k : Comparator) : Set Json := {value | k.test value = true}

section

variable {valueType : TypeDescriptor} {kind : ScalarKind} {l : Literal} {x : Operand}
  {op : Operator}

theorem mem_accepted_iff (scalar : valueType.scalarKind? = some kind)
    (converts : Converts valueType l x) : ∃ bound : kind.Key, ∀ op, op.requiresOrdering = true →
      ∀ value, value ∈ accepted ⟨op, x⟩ ↔
        ∃ k, kind.key? value = some k ∧ op.accepts (compare k bound) = true := by
  obtain ⟨bound, compares⟩ := converts.exists_bound scalar
  refine ⟨bound, fun op ordering value => ?_⟩
  have notNe : op ≠ .ne := by
    rintro rfl
    cases ordering
  rw [accepted, Set.mem_ofPred_eq, test_typed x converts.typed, compares]
  rcases kind.key? value with _ | k
  · simp [notNe]
  · simp

theorem holds_of_mem_accepted (scalar : valueType.scalarKind? = some kind)
    (converts : Converts valueType l x) (ordering : op.requiresOrdering = true) {value : Json}
    (found : value ∈ accepted ⟨op, x⟩) : kind.Holds value := by
  obtain ⟨bound, accepts⟩ := mem_accepted_iff scalar converts
  obtain ⟨k, keyed, -⟩ := (accepts op ordering value).1 found
  exact ScalarKind.holds_iff_isSome_key?.2 (Option.isSome_iff_exists.2 ⟨k, keyed⟩)

/-- What `<` and `<=` accept is an initial part of the order. -/
theorem isClosed_le_accepted (scalar : valueType.scalarKind? = some kind)
    (converts : Converts valueType l x) (mem : op ∈ [Operator.lt, .le]) :
    kind.IsClosed kind.Le (accepted ⟨op, x⟩) := by
  obtain ⟨bound, accepts⟩ := mem_accepted_iff scalar converts
  have ordering : op.requiresOrdering = true := by
    rcases List.mem_pair.1 mem with rfl | rfl <;> rfl
  refine ⟨fun value found => holds_of_mem_accepted scalar converts ordering found, ?_⟩
  rintro v w ⟨i, k, keyedV, keyedW, below⟩ found
  obtain ⟨k', keyed, holds⟩ := (accepts op ordering w).1 found
  cases keyedW.symm.trans keyed
  exact (accepts op ordering v).2 ⟨i, keyedV, Operator.accepts_of_isLE mem below holds⟩

/-- What `>` and `>=` accept is a final part of the order. -/
theorem isClosed_ge_accepted (scalar : valueType.scalarKind? = some kind)
    (converts : Converts valueType l x) (mem : op ∈ [Operator.gt, .ge]) :
    kind.IsClosed (flip kind.Le) (accepted ⟨op, x⟩) := by
  obtain ⟨bound, accepts⟩ := mem_accepted_iff scalar converts
  have ordering : op.requiresOrdering = true := by
    rcases List.mem_pair.1 mem with rfl | rfl <;> rfl
  refine ⟨fun value found => holds_of_mem_accepted scalar converts ordering found, ?_⟩
  rintro v w ⟨i, k, keyedW, keyedV, below⟩ found
  obtain ⟨k', keyed, holds⟩ := (accepts op ordering w).1 found
  cases keyedW.symm.trans keyed
  exact (accepts op ordering v).2 ⟨k, keyedV, Operator.accepts_of_isGE mem below holds⟩

/-- What two comparators of one ordering operator accept is nested. -/
theorem accepted_subset_or_subset (scalar : valueType.scalarKind? = some kind)
    {l' : Literal} {y : Operand} (first : Converts valueType l x)
    (second : Converts valueType l' y) (ordering : op.requiresOrdering = true) :
    accepted ⟨op, x⟩ ⊆ accepted ⟨op, y⟩ ∨ accepted ⟨op, y⟩ ⊆ accepted ⟨op, x⟩ := by
  cases op with
  | eq | ne => cases ordering
  | lt | le =>
    exact ScalarKind.IsClosed.subset_or_subset (fun _ _ => ScalarKind.le_total)
      (isClosed_le_accepted scalar first (by decide))
      (isClosed_le_accepted scalar second (by decide))
  | gt | ge =>
    exact ScalarKind.IsClosed.subset_or_subset (fun _ _ holds holds' => ScalarKind.le_total holds' holds)
      (isClosed_ge_accepted scalar first (by decide))
      (isClosed_ge_accepted scalar second (by decide))

end

theorem test_ne (x : Operand) (value : Json) :
    (⟨.ne, x⟩ : Comparator).test value = !(⟨.eq, x⟩ : Comparator).test value := by
  by_cases typed : ∀ l, x ≠ .literal l
  · rw [test_typed x typed, test_typed x typed]
    rcases x.ordering? value with _ | o
    · rfl
    · cases o <;> rfl
  · obtain ⟨l, rfl⟩ : ∃ l, x = .literal l := by simpa using typed
    rfl

end Comparator

/-! ### Comparisons of a type -/

/-- A value is of the kind of a type. -/
def TypeDescriptor.Holds (d : TypeDescriptor) (value : Json) : Prop :=
  ∃ kind, d.scalarKind? = some kind ∧ kind.Holds value

/-- A type orders a literal: a comparison of its values with it by `<`, `<=`, `>` or `>=` resolves. -/
def TypeDescriptor.Orders (d : TypeDescriptor) (l : Literal) : Prop :=
  ∃ op offset, op.requiresOrdering = true ∧ Comparator.Resolves d ⟨op, l, offset⟩

/-- An operand places a value: `<=` and `>=` are what their symbols say, and of `<`, `==` and `>` one
is true if the value is of the type's kind, and none if it is not. -/
structure Operand.Places (x : Operand) (valueType : TypeDescriptor) (value : Json) : Prop where
  le : (⟨.le, x⟩ : Comparator).test value =
    ((⟨.lt, x⟩ : Comparator).test value || (⟨.eq, x⟩ : Comparator).test value)
  ge : (⟨.ge, x⟩ : Comparator).test value =
    ((⟨.gt, x⟩ : Comparator).test value || (⟨.eq, x⟩ : Comparator).test value)
  one : valueType.Holds value →
    ∃! op, op ∈ [Operator.lt, .eq, .gt] ∧ (⟨op, x⟩ : Comparator).test value = true
  none : ¬ valueType.Holds value →
    ∀ op ∈ [Operator.lt, .eq, .gt], (⟨op, x⟩ : Comparator).test value = false

namespace Converts

variable {valueType : TypeDescriptor} {l : Literal} {x : Operand}

theorem isSome_ordering?_iff (converts : Converts valueType l x) {value : Json} :
    (x.ordering? value).isSome ↔ valueType.Holds value := by
  obtain ⟨kind, scalar⟩ := converts.exists_kind
  obtain ⟨bound, compares⟩ := converts.exists_bound scalar
  rw [compares, Option.isSome_map, ← ScalarKind.holds_iff_isSome_key?]
  constructor
  · exact fun holds => ⟨kind, scalar, holds⟩
  · rintro ⟨kind', scalar', holds⟩
    cases scalar.symm.trans scalar'
    exact holds

theorem places (converts : Converts valueType l x) (value : Json) : x.Places valueType value := by
  have holds := @isSome_ordering?_iff _ _ _ converts value
  have test (op : Operator) := Comparator.test_typed x converts.typed op value
  rcases compares : x.ordering? value with _ | o
  · simp only [compares] at holds test
    refine ⟨?_, ?_, fun held => (Bool.false_ne_true (holds.2 held)).elim, fun _ op mem => ?_⟩
    · rw [test, test, test]
      rfl
    · rw [test, test, test]
      rfl
    · rw [test]
      revert op
      decide
  · simp only [compares] at holds test
    refine ⟨?_, ?_, fun _ => ?_, fun stray => absurd (holds.1 rfl) stray⟩
    · rw [test, test, test]
      cases o <;> rfl
    · rw [test, test, test]
      cases o <;> rfl
    · simp only [test]
      exact Operator.existsUnique_accepts o

end Converts

namespace Condition

theorem holds_pair_of_subset {p q : Comparator} (narrower : p.accepted ⊆ q.accepted)
    (value : Json) :
    (chain .and [leaf p, leaf q]).holds value = p.test value ∧
      (chain .and [leaf q, leaf p]).holds value = p.test value ∧
      (chain .or [leaf p, leaf q]).holds value = q.test value ∧
      (chain .or [leaf q, leaf p]).holds value = q.test value := by
  have implies : p.test value = true → q.test value = true := fun found => narrower found
  simp only [holds, allHold, anyHolds, Bool.and_true, Bool.or_false]
  revert implies
  cases p.test value <;> cases q.test value <;> decide

/-- Of two nested comparators, joined by a connective, one is enough. -/
theorem exists_holds_pair {p q : Comparator}
    (nested : p.accepted ⊆ q.accepted ∨ q.accepted ⊆ p.accepted) (connective : Connective) :
    ∃ k ∈ [p, q], ∀ value, (chain connective [leaf p, leaf q]).holds value = k.test value := by
  rcases nested with sub | sub
  · have one := holds_pair_of_subset sub
    cases connective with
    | and => exact ⟨p, by simp, fun value => (one value).1⟩
    | or => exact ⟨q, by simp, fun value => (one value).2.2.1⟩
  · have one := holds_pair_of_subset sub
    cases connective with
    | and => exact ⟨q, by simp, fun value => (one value).2.1⟩
    | or => exact ⟨p, by simp, fun value => (one value).2.2.2⟩

end Condition

namespace Comparator

/-- Values of a type against literals. `!=` is true where `==` is not. A literal that the type
orders is converted to one operand for all operators, which places every value. What `<` and `<=`
accept of two such literals is nested, and two comparisons with one ordering operator, joined by
either connective, are together one of the two. -/
theorem resolve_preorder (valueType : TypeDescriptor) (a : Literal) :
    (∀ offset offset' k k', resolve valueType ⟨.eq, a, offset⟩ = .ok k →
      resolve valueType ⟨.ne, a, offset'⟩ = .ok k' → ∀ value, k'.test value = !k.test value) ∧
    (valueType.Orders a → ∃ x,
      (∀ op offset, resolve valueType ⟨op, a, offset⟩ = .ok ⟨op, x⟩) ∧
      (∀ value, x.Places valueType value) ∧
      ∀ b, valueType.Orders b → ∃ y,
        (∀ op offset, resolve valueType ⟨op, b, offset⟩ = .ok ⟨op, y⟩) ∧
        IsChain (· ⊆ ·)
          {accepted ⟨.lt, x⟩, accepted ⟨.le, x⟩, accepted ⟨.lt, y⟩, accepted ⟨.le, y⟩} ∧
        ∀ op connective offset offset', op.requiresOrdering = true →
          ∃ condition, Condition.bind valueType
              (.chain connective [.leaf ⟨op, a, offset⟩, .leaf ⟨op, b, offset'⟩]) = .ok condition ∧
            ∃ k ∈ [(⟨op, x⟩ : Comparator), ⟨op, y⟩], ∀ value, condition.holds value = k.test value) := by
  constructor
  · rintro offset offset' ⟨op, x⟩ k' equal unequal value
    obtain ⟨operator, operand⟩ := resolve_eq_ok_iff.1 equal
    cases operator
    -- `!=` needs no order either, so the operand of `==` is one of `!=` as well.
    have same : resolve valueType ⟨.ne, a, offset'⟩ = .ok ⟨.ne, x⟩ :=
      resolve_eq_ok_iff.2 ⟨rfl, operand⟩
    cases same.symm.trans unequal
    exact test_ne x value
  · rintro ⟨op, offset, ordering, resolves⟩
    obtain ⟨x, first⟩ := converts_of_ordering ordering resolves
    obtain ⟨kind, scalar⟩ := first.exists_kind
    refine ⟨x, fun op offset => resolve_of_converts first, first.places, ?_⟩
    rintro b ⟨op, offset, ordering, resolves⟩
    obtain ⟨y, second⟩ := converts_of_ordering ordering resolves
    refine ⟨y, fun op offset => resolve_of_converts second, ?_, ?_⟩
    · have initial : ∀ s ∈ ({accepted ⟨.lt, x⟩, accepted ⟨.le, x⟩, accepted ⟨.lt, y⟩,
          accepted ⟨.le, y⟩} : Set (Set Json)), kind.IsClosed kind.Le s := by
        rintro s (rfl | rfl | rfl | rfl)
        · exact isClosed_le_accepted scalar first (by decide)
        · exact isClosed_le_accepted scalar first (by decide)
        · exact isClosed_le_accepted scalar second (by decide)
        · exact isClosed_le_accepted scalar second (by decide)
      intro s memS t memT _
      exact (initial s memS).subset_or_subset (fun _ _ => ScalarKind.le_total) (initial t memT)
    · intro op connective offset offset' ordering
      refine ⟨.chain connective [.leaf ⟨op, x⟩, .leaf ⟨op, y⟩], ?_, ?_⟩
      · simp [Condition.bind, Condition.bindAll, resolve_of_converts first,
          resolve_of_converts second, bind_eq_ok_iff, pure, Except.pure]
      · exact Condition.exists_holds_pair
          (accepted_subset_or_subset scalar first second ordering) connective

/-- A whole number and a fraction are bounds in one order. -/
theorem resolve_preorder_mixed :
    let valueType : TypeDescriptor := ⟨"Integer", .scalar .integer⟩
    valueType.Orders (.integer 4) ∧ valueType.Orders (.decimal ⟨25, 1⟩) ∧
      (Operand.integer 4).Places valueType (.text "4") ∧
      accepted ⟨.le, .decimal ⟨25, 1⟩⟩ ⊆ accepted ⟨.lt, .integer 4⟩ ∧
      ∃ condition, Condition.bind valueType
          (.chain .and [.leaf ⟨.lt, .integer 4, 0⟩, .leaf ⟨.lt, .decimal ⟨25, 1⟩, 7⟩]) =
            .ok condition ∧
        ∀ value, condition.holds value = (⟨.lt, .decimal ⟨25, 1⟩⟩ : Comparator).test value := by
  intro valueType
  have whole : valueType.Orders (.integer 4) := ⟨.lt, 0, rfl, _, rfl⟩
  have fraction : valueType.Orders (.decimal ⟨25, 1⟩) := ⟨.lt, 7, rfl, _, rfl⟩
  obtain ⟨-, ordered⟩ := resolve_preorder valueType (.integer 4)
  obtain ⟨x, converted, places, bounds⟩ := ordered whole
  cases converted .lt 0
  obtain ⟨y, converted', nested, joined⟩ := bounds _ fraction
  cases converted' .lt 7
  -- Three is below four and above two and a half.
  have inside : (⟨.lt, .integer 4⟩ : Comparator).test (.whole 3) = true := rfl
  have outsideLt : (⟨.lt, .decimal ⟨25, 1⟩⟩ : Comparator).test (.whole 3) = false := rfl
  have outsideLe : (⟨.le, .decimal ⟨25, 1⟩⟩ : Comparator).test (.whole 3) = false := rfl
  refine ⟨whole, fraction, places _, ?_, ?_⟩
  · have total := nested.total (x := accepted ⟨.le, .decimal ⟨25, 1⟩⟩)
      (y := accepted ⟨.lt, .integer 4⟩) (by simp) (by simp)
    refine total.resolve_right fun sub => ?_
    have found : (⟨.le, .decimal ⟨25, 1⟩⟩ : Comparator).test (.whole 3) = true := sub inside
    cases outsideLe.symm.trans found
  · obtain ⟨condition, bound, k, mem, same⟩ := joined .lt .and 0 7 rfl
    have bound' : Condition.bind valueType
        (.chain .and [.leaf ⟨.lt, .integer 4, 0⟩, .leaf ⟨.lt, .decimal ⟨25, 1⟩, 7⟩]) =
          .ok (.chain .and [.leaf ⟨.lt, .integer 4⟩, .leaf ⟨.lt, .decimal ⟨25, 1⟩⟩]) := rfl
    cases bound'.symm.trans bound
    rcases List.mem_pair.1 mem with rfl | rfl
    · have both := same (.whole 3)
      rw [Condition.holds, Condition.allHold, Condition.allHold, Condition.holds, Condition.holds,
        inside, outsideLt] at both
      cases both
    · exact ⟨_, bound', same⟩

end Comparator

end HalfBinary

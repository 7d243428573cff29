import Mathlib
import HalfBinary.Predicate
import HalfBinary.Proofs.Comparators

/-!
# Which comparisons a type admits

A comparison is admitted if its literal converts to a value of the type, or if the type has no
family that the literal is of and equality is all it asks for. A clause has a predicate if all of
its comparisons are admitted; otherwise the first that is not, in the order of the clause, is at
fault (`ofClause_admission`).
-/

namespace HalfBinary

/-! ### First faults of a traversal -/

section

variable {ε α β : Type} {f : α → Except ε β}

/-- A traversal succeeds with a result for each element. -/
theorem mapM_eq_ok_iff {xs : List α} {ys : List β} :
    xs.mapM f = .ok ys ↔ List.Forall₂ (fun x y => f x = .ok y) xs ys := by
  induction xs generalizing ys with
  | nil =>
    rw [List.mapM_nil, List.forall₂_nil_left_iff]
    constructor
    · rintro ⟨⟩
      rfl
    · rintro rfl
      rfl
  | cons x xs ih =>
    simp only [List.mapM_cons, bind_eq_ok_iff, ih, List.forall₂_cons_left_iff]
    constructor
    · rintro ⟨y, first, ys, others, h⟩
      cases h
      exact ⟨y, ys, first, others, rfl⟩
    · rintro ⟨y, ys, first, others, rfl⟩
      exact ⟨y, first, ys, others, rfl⟩

/-- Whatever is related to a list from the right is related to one of its elements. -/
theorem exists_of_forall₂ {R : α → β → Prop} {xs : List α} {ys : List β}
    (related : List.Forall₂ R xs ys) {y : β} (mem : y ∈ ys) : ∃ x, R x y := by
  induction related with
  | nil => cases mem
  | cons first _ ih =>
    rcases List.mem_cons.1 mem with rfl | mem
    · exact ⟨_, first⟩
    · exact ih mem

theorem exists_mapM_iff {xs : List α} :
    (∃ ys, xs.mapM f = .ok ys) ↔ ∀ x ∈ xs, ∃ y, f x = .ok y := by
  simp only [mapM_eq_ok_iff]
  induction xs with
  | nil => simp
  | cons x xs ih =>
    rw [List.forall_mem_cons, ← ih]
    constructor
    · rintro ⟨ys, results⟩
      cases results with
      | cons first others => exact ⟨⟨_, first⟩, _, others⟩
    · rintro ⟨⟨y, first⟩, ys, others⟩
      exact ⟨y :: ys, .cons first others⟩

/-- A traversal stops at the first element that fails. -/
theorem mapM_eq_error_iff {xs : List α} {e : ε} :
    xs.mapM f = .error e ↔ ∃ before x after, xs = before ++ x :: after ∧
      (∀ b ∈ before, ∃ y, f b = .ok y) ∧ f x = .error e := by
  induction xs with
  | nil =>
    constructor
    · rintro ⟨⟩
    · rintro ⟨before, x, after, split, -⟩
      cases before <;> cases split
  | cons x xs ih =>
    rw [List.mapM_cons]
    rcases first : f x with e' | y
    · constructor
      · intro h
        cases h
        exact ⟨[], x, xs, rfl, nofun, first⟩
      · rintro ⟨before, x', after, split, succeed, fails⟩
        cases before with
        | nil =>
          cases split
          cases first.symm.trans fails
          rfl
        | cons b before =>
          cases split
          obtain ⟨y, first'⟩ := succeed x List.mem_cons_self
          cases first.symm.trans first'
    · -- The first element succeeds, so the error is one of the others.
      have skip : (do let ys ← xs.mapM f; pure (y :: ys)) = .error e ↔ xs.mapM f = .error e := by
        rcases xs.mapM f with e' | ys
        · simp [bind, Except.bind]
        · simp [bind, Except.bind, pure, Except.pure]
      refine skip.trans (ih.trans ?_)
      constructor
      · rintro ⟨before, x', after, rfl, succeed, fails⟩
        exact ⟨x :: before, x', after, rfl, List.forall_mem_cons.2 ⟨⟨y, first⟩, succeed⟩, fails⟩
      · rintro ⟨before, x', after, split, succeed, fails⟩
        cases before with
        | nil =>
          cases split
          cases first.symm.trans fails
        | cons b before =>
          cases split
          exact ⟨before, x', after, rfl, (List.forall_mem_cons.1 succeed).2, fails⟩

end

/-! ### One comparison -/

theorem Operator.requiresOrdering_eq_false_iff {op : Operator} :
    op.requiresOrdering = false ↔ op = .eq ∨ op = .ne := by
  cases op <;> simp [requiresOrdering]

namespace TypeDescriptor

/-- A comparison has a meaning for values of the type: its literal converts, or the literal is
foreign and the comparison asks for equality alone. -/
def Admits (d : TypeDescriptor) (c : Comparison) : Prop :=
  (∃ operand, Converts d c.literal operand) ∨
    d.IsForeign c.literal ∧ (c.operator = .eq ∨ c.operator = .ne)

/-- What is wrong with a comparison that is not admitted. A malformed date is wrong whatever the
operator. -/
inductive Refuses (d : TypeDescriptor) (c : Comparison) : ClauseError → Prop
  | date (scalar : d.scalarKind? = some .date) {s : String} (text : c.literal = .text s)
      (malformed : Date.ofText? s = none) :
      Refuses d c (.invalidLiteral c.literal.render "date" c.offset)
  | dateTime (scalar : d.scalarKind? = some .dateTime) {s : String} (text : c.literal = .text s)
      (malformed : Instant.ofText? s = none) :
      Refuses d c (.invalidLiteral c.literal.render "RFC 3339 date-time" c.offset)
  | unordered (foreign : d.IsForeign c.literal) (ordering : c.operator.requiresOrdering = true) :
      Refuses d c (.incomparableTypes c.operator d.name c.literal.typeName)

/-- Of the literals in the family of a kind, only a text that is no date or timestamp does not
convert. -/
theorem converts_or_refuses {d : TypeDescriptor} {c : Comparison} {kind : ScalarKind}
    (scalar : d.scalarKind? = some kind) (admits : kind.admits c.literal = true) :
    (∃ operand, Converts d c.literal operand) ∨ ∃ e, d.Refuses c e := by
  obtain ⟨op, l, offset⟩ := c
  dsimp only at admits ⊢
  cases kind with
  | integer | decimal =>
    cases l with
    | null | boolean _ | text _ => cases admits
    | integer v => exact .inl ⟨_, .integer scalar rfl v⟩
    | decimal v => exact .inl ⟨_, .decimal scalar rfl v⟩
  | text =>
    cases l with
    | null | boolean _ | integer _ | decimal _ => cases admits
    | text s => exact .inl ⟨_, .text scalar s⟩
  | boolean =>
    cases l with
    | null | integer _ | decimal _ | text _ => cases admits
    | boolean b => exact .inl ⟨_, .boolean scalar b⟩
  | date =>
    cases l with
    | null | boolean _ | integer _ | decimal _ => cases admits
    | text s =>
      rcases parsed : Date.ofText? s with _ | day
      · exact .inr ⟨_, .date scalar rfl parsed⟩
      · exact .inl ⟨_, .date scalar parsed⟩
  | dateTime =>
    cases l with
    | null | boolean _ | integer _ | decimal _ => cases admits
    | text s =>
      rcases parsed : Instant.ofText? s with _ | instant
      · exact .inr ⟨_, .dateTime scalar rfl parsed⟩
      · exact .inl ⟨_, .dateTime scalar parsed⟩

/-- A comparison is admitted or refused. -/
theorem admits_or_refuses (d : TypeDescriptor) (c : Comparison) :
    d.Admits c ∨ ∃ e, d.Refuses c e := by
  by_cases foreign : d.IsForeign c.literal
  · by_cases equality : c.operator = .eq ∨ c.operator = .ne
    · exact .inl (.inr ⟨foreign, equality⟩)
    · refine .inr ⟨_, .unordered foreign ?_⟩
      rwa [← Operator.requiresOrdering_eq_false_iff, Bool.not_eq_false] at equality
  · obtain ⟨kind, scalar, admits⟩ : ∃ kind, d.scalarKind? = some kind ∧
        kind.admits c.literal = true := by simpa [IsForeign] using foreign
    exact (converts_or_refuses scalar admits).imp .inl id

end TypeDescriptor

namespace Comparator

variable {valueType : TypeDescriptor} {c : Comparison}

theorem resolves_iff_admits : (∃ k, resolve valueType c = .ok k) ↔ valueType.Admits c := by
  simp only [resolve_eq_ok_iff, TypeDescriptor.Admits, ← Operator.requiresOrdering_eq_false_iff]
  constructor
  · rintro ⟨k, -, converts | ⟨foreign, unordered, -⟩⟩
    · exact .inl ⟨k.operand, converts⟩
    · exact .inr ⟨foreign, unordered⟩
  · rintro (⟨operand, converts⟩ | ⟨foreign, unordered⟩)
    · exact ⟨⟨c.operator, operand⟩, rfl, .inl converts⟩
    · exact ⟨⟨c.operator, .literal c.literal⟩, rfl, .inr ⟨foreign, unordered, rfl⟩⟩

theorem resolve_of_refuses {e : ClauseError} (refuses : valueType.Refuses c e) :
    resolve valueType c = .error e := by
  obtain ⟨op, l, offset⟩ := c
  cases refuses with
  | date scalar text malformed =>
    obtain rfl : l = _ := text
    simp only [resolve, scalar, malformed]
    rfl
  | dateTime scalar text malformed =>
    obtain rfl : l = _ := text
    simp only [resolve, scalar, malformed]
    rfl
  | unordered foreign ordering =>
    rw [resolve_of_isForeign foreign]
    exact if_pos ordering

theorem not_admits_of_refuses {e : ClauseError} (refuses : valueType.Refuses c e) :
    ¬valueType.Admits c := by
  intro admits
  obtain ⟨k, resolved⟩ := resolves_iff_admits.2 admits
  cases resolved.symm.trans (resolve_of_refuses refuses)

theorem resolve_eq_error_iff {e : ClauseError} :
    resolve valueType c = .error e ↔ valueType.Refuses c e := by
  constructor
  · intro h
    obtain admits | ⟨e', refuses⟩ := valueType.admits_or_refuses c
    · obtain ⟨k, resolved⟩ := resolves_iff_admits.2 admits
      cases h.symm.trans resolved
    · cases h.symm.trans (resolve_of_refuses refuses)
      exact refuses
  · exact resolve_of_refuses

/-- Only equality is compared without converting. -/
theorem equality_of_resolve {k : Comparator} (h : resolve valueType c = .ok k)
    (strategy : k.operand.strategy = .equality) : k.operator = .eq ∨ k.operator = .ne := by
  obtain ⟨op', operand⟩ := k
  obtain ⟨op, l, offset⟩ := c
  obtain ⟨operator, converts | ⟨-, unordered, -⟩⟩ := resolve_eq_ok_iff.1 h
  · cases converts <;> cases strategy
  · rw [operator]
    exact Operator.requiresOrdering_eq_false_iff.1 unordered

end Comparator

/-! ### All comparisons of a constraint -/

namespace Condition

mutual

/-- The bound comparisons from left to right. -/
def comparators : Condition → List Comparator
  | leaf k => [k]
  | chain _ parts => comparatorsAll parts

def comparatorsAll : List Condition → List Comparator
  | [] => []
  | part :: parts => comparators part ++ comparatorsAll parts

end

mutual

/-- Binding visits the comparisons in their listed order. -/
theorem comparators_bind (valueType : TypeDescriptor) : (t : Constraint) →
    comparators <$> bind valueType t = t.comparisons.mapM (Comparator.resolve valueType)
  | .leaf c => by
    rw [bind, Constraint.comparisons, List.mapM_cons, List.mapM_nil]
    cases Comparator.resolve valueType c <;> rfl
  | .chain connective parts => by
    rw [bind, Constraint.comparisons, ← comparatorsAll_bindAll valueType parts]
    cases bindAll valueType parts <;> rfl

theorem comparatorsAll_bindAll (valueType : TypeDescriptor) : (parts : List Constraint) →
    comparatorsAll <$> bindAll valueType parts =
      (Constraint.comparisonsAll parts).mapM (Comparator.resolve valueType)
  | [] => rfl
  | part :: parts => by
    rw [bindAll, Constraint.comparisonsAll, List.mapM_append, ← comparators_bind valueType part,
      ← comparatorsAll_bindAll valueType parts]
    cases bind valueType part with
    | error e => rfl
    | ok first => cases bindAll valueType parts <;> rfl

end

/-- A bound constraint has a comparator for each comparison. -/
theorem forall₂_of_bind {valueType : TypeDescriptor} {t : Constraint} {condition : Condition}
    (h : bind valueType t = .ok condition) :
    List.Forall₂ (fun c k => Comparator.resolve valueType c = .ok k) t.comparisons
      condition.comparators := by
  rw [← mapM_eq_ok_iff, ← comparators_bind, h]
  rfl

theorem exists_bind_iff {valueType : TypeDescriptor} {t : Constraint} :
    (∃ condition, bind valueType t = .ok condition) ↔ ∀ c ∈ t.comparisons, valueType.Admits c := by
  simp only [← Comparator.resolves_iff_admits, ← exists_mapM_iff, ← comparators_bind]
  rcases bind valueType t with e | condition
  · exact ⟨nofun, nofun⟩
  · exact ⟨fun _ => ⟨_, rfl⟩, fun _ => ⟨_, rfl⟩⟩

theorem bind_eq_error_iff {valueType : TypeDescriptor} {t : Constraint} {e : ClauseError} :
    bind valueType t = .error e ↔ ∃ before c after, t.comparisons = before ++ c :: after ∧
      (∀ b ∈ before, valueType.Admits b) ∧ valueType.Refuses c e := by
  have same : bind valueType t = .error e ↔ comparators <$> bind valueType t = .error e := by
    rcases bind valueType t with e' | condition
    · exact ⟨fun h => by cases h; rfl, fun h => by cases h; rfl⟩
    · exact ⟨nofun, nofun⟩
  rw [same, comparators_bind, mapM_eq_error_iff]
  simp only [Comparator.resolves_iff_admits, Comparator.resolve_eq_error_iff]

end Condition

/-! ### Compiling a parsed clause -/

namespace Predicate

theorem ofClause_eq_ok_iff {clause : Clause} {source : String} {p : Predicate} :
    ofClause clause source = .ok p ↔ ∃ condition,
      Condition.bind clause.accessor.valueType clause.root = .ok condition ∧
        p = ⟨source, clause.accessor, clause.root, condition⟩ := by
  simp only [ofClause, bind_eq_ok_iff]
  refine exists_congr fun condition => and_congr_right fun _ => ?_
  exact ⟨fun h => by cases h; rfl, fun h => by rw [h]; rfl⟩

theorem ofClause_eq_error_iff {clause : Clause} {source : String} {e : ClauseError} :
    ofClause clause source = .error e ↔
      Condition.bind clause.accessor.valueType clause.root = .error e := by
  rw [ofClause]
  rcases Condition.bind clause.accessor.valueType clause.root with e' | condition
  · exact ⟨fun h => by cases h; rfl, fun h => by cases h; rfl⟩
  · exact ⟨nofun, nofun⟩

/-- A parsed clause has a predicate exactly if its type admits every comparison. Otherwise the
first comparison that is not admitted is at fault: a text that is no date or timestamp of the type,
whatever its operator, or an order between values that have none. Comparisons without a conversion
are bound for equality only. -/
theorem ofClause_admission (clause : Clause) (source : String) :
    ((∃ p, ofClause clause source = .ok p) ↔
      ∀ c ∈ clause.root.comparisons, clause.accessor.valueType.Admits c) ∧
    (∀ e, ofClause clause source = .error e ↔
      ∃ before c after, clause.root.comparisons = before ++ c :: after ∧
        (∀ b ∈ before, clause.accessor.valueType.Admits b) ∧
        ¬clause.accessor.valueType.Admits c ∧ clause.accessor.valueType.Refuses c e) ∧
    ∀ p, ofClause clause source = .ok p →
      List.Forall₂ (fun c k => Comparator.resolve clause.accessor.valueType c = .ok k)
        clause.root.comparisons p.condition.comparators ∧
      ∀ k ∈ p.condition.comparators,
        k.operand.strategy = .equality → k.operator = .eq ∨ k.operator = .ne := by
  refine ⟨?_, ?_, ?_⟩
  · rw [← Condition.exists_bind_iff]
    simp only [ofClause_eq_ok_iff]
    constructor
    · rintro ⟨p, condition, bound, -⟩
      exact ⟨condition, bound⟩
    · rintro ⟨condition, bound⟩
      exact ⟨_, condition, bound, rfl⟩
  · intro e
    rw [ofClause_eq_error_iff, Condition.bind_eq_error_iff]
    constructor
    · rintro ⟨before, c, after, split, admitted, refuses⟩
      exact ⟨before, c, after, split, admitted, Comparator.not_admits_of_refuses refuses, refuses⟩
    · rintro ⟨before, c, after, split, admitted, -, refuses⟩
      exact ⟨before, c, after, split, admitted, refuses⟩
  · intro p compiled
    obtain ⟨condition, bound, rfl⟩ := ofClause_eq_ok_iff.1 compiled
    have resolved := Condition.forall₂_of_bind bound
    constructor
    · exact resolved
    · intro k mem strategy
      obtain ⟨c, resolves⟩ := exists_of_forall₂ resolved mem
      exact Comparator.equality_of_resolve resolves strategy

/-- A day is ordered against days and equal to no number. A day that is none is at fault although
only equality is asked for, and before the number that has no order. -/
theorem ofClause_admission_days :
    let accessor : ResolvedAccessor := ⟨⟨["born"]⟩, "Person", [⟨"born", .field, "LocalDate"⟩],
      ⟨"LocalDate", .scalar .date⟩⟩
    let leap : Constraint := .chain .and [.leaf ⟨.ge, .text "2024-02-29", 5⟩]
    (∃ p, ofClause ⟨accessor, .chain .or [.chain .and [], leap, .leaf ⟨.ne, .integer 7, 24⟩]⟩ "" =
        .ok p ∧ ∀ k ∈ p.condition.comparators,
          k.operand.strategy = .equality → k.operator = .eq ∨ k.operator = .ne) ∧
      ofClause ⟨accessor, .chain .or [.chain .and [], leap, .leaf ⟨.eq, .text "2023-02-29", 24⟩,
          .leaf ⟨.lt, .integer 7, 44⟩]⟩ "" =
        .error (.invalidLiteral "\"2023-02-29\"" "date" 24) := by
  intro accessor leap
  have day : (⟨"LocalDate", .scalar .date⟩ : TypeDescriptor).Admits ⟨.ge, .text "2024-02-29", 5⟩ := by
    have isDay : (Date.ofText? "2024-02-29").isSome = true := rfl
    obtain ⟨day, parsed⟩ := Option.isSome_iff_exists.1 isDay
    exact .inl ⟨_, .date rfl parsed⟩
  have number : (⟨"LocalDate", .scalar .date⟩ : TypeDescriptor).Admits ⟨.ne, .integer 7, 24⟩ := by
    refine .inr ⟨?_, .inr rfl⟩
    rintro kind ⟨⟩
    rfl
  constructor
  · obtain ⟨accepts, -, bound⟩ := ofClause_admission
      ⟨accessor, .chain .or [.chain .and [], leap, .leaf ⟨.ne, .integer 7, 24⟩]⟩ ""
    obtain ⟨p, compiled⟩ := accepts.2 (by
      intro c mem
      rcases List.mem_pair.1 mem with rfl | rfl
      · exact day
      · exact number)
    exact ⟨p, compiled, (bound p compiled).2⟩
  · obtain ⟨-, refuses, -⟩ := ofClause_admission
      ⟨accessor, .chain .or [.chain .and [], leap, .leaf ⟨.eq, .text "2023-02-29", 24⟩,
          .leaf ⟨.lt, .integer 7, 44⟩]⟩ ""
    have malformed : Date.ofText? "2023-02-29" = none := rfl
    have refused : (⟨"LocalDate", .scalar .date⟩ : TypeDescriptor).Refuses
        ⟨.eq, .text "2023-02-29", 24⟩ (.invalidLiteral "\"2023-02-29\"" "date" 24) :=
      .date rfl rfl malformed
    refine (refuses _).2 ⟨[⟨.ge, .text "2024-02-29", 5⟩], _, _, rfl, ?_,
      Comparator.not_admits_of_refuses refused, refused⟩
    intro b mem
    obtain rfl := List.mem_singleton.1 mem
    exact day

end Predicate

end HalfBinary

import Mathlib
import HalfBinary.Proofs.Comparators
import HalfBinary.Proofs.Validation

/-!
# Values of declared types

A value conforms to a type if it is of the type's kind, or an object whose declared properties
conform to their types. In a valid configuration a path leads from conforming facts to conforming
values, and such values are totally ordered against every literal that their type orders
(`typed_read`).
-/

namespace HalfBinary

/-- The values of a scalar kind. -/
def ScalarKind.Holds : ScalarKind → Json → Prop
  | integer, value | decimal, value => ∃ x, value = .number x
  | text, value => ∃ s, value = .text s
  | boolean, value => ∃ b, value = .boolean b
  | date, value => ∃ s day, value = .text s ∧ Date.ofText? s = some day
  | dateTime, value => ∃ s instant, value = .text s ∧ Instant.ofText? s = some instant

/-- A value is of a declared type. A property of a record may be missing or `null`. -/
inductive Registry.Conforms (r : Registry) : TypeDescriptor → Json → Prop
  | scalar {name : String} {kind : ScalarKind} {value : Json} (holds : kind.Holds value) :
      Conforms r ⟨name, .scalar kind⟩ value
  | record {name : String} {properties : Std.TreeMap String String}
      {fields : List (String × Json)}
      (members : ∀ property target next value, properties[property]? = some target →
        r.get? target = some next → fields.lookup property = some value → value ≠ .null →
          Conforms r next value) :
      Conforms r ⟨name, .record properties⟩ (.object fields)
  | atom {name : String} (value : Json) : Conforms r ⟨name, .atom⟩ value

/-- A value of a declared type, or none. -/
def Registry.Fits (r : Registry) (d : TypeDescriptor) (value : Json) : Prop :=
  value = .null ∨ r.Conforms d value

/-! ### Built-in types -/

namespace Registry

theorem get?_foldl_register_of_notMem {ds : List TypeDescriptor} {r : Registry} {name : String}
    (other : ∀ d ∈ ds, d.name ≠ name) : (ds.foldl register r).get? name = r.get? name := by
  induction ds generalizing r with
  | nil => rfl
  | cons first ds ih =>
    obtain ⟨head, tail⟩ := List.forall_mem_cons.1 other
    rw [List.foldl_cons, ih tail, get?_register]
    exact if_neg (Ne.symm head)

/-- Types of distinct names are all found. -/
theorem get?_foldl_register_of_mem {ds : List TypeDescriptor} {r : Registry} {d : TypeDescriptor}
    (distinct : ds.Pairwise (·.name ≠ ·.name)) (mem : d ∈ ds) :
    (ds.foldl register r).get? d.name = some d := by
  induction ds generalizing r with
  | nil => cases mem
  | cons first ds ih =>
    obtain ⟨head, tail⟩ := List.pairwise_cons.1 distinct
    rw [List.foldl_cons]
    rcases List.mem_cons.1 mem with rfl | mem
    · rw [get?_foldl_register_of_notMem fun d' mem' => (head d' mem').symm, get?_register]
      exact if_pos rfl
    · exact ih tail mem

theorem get?_builtin {name : String} {kind : ScalarKind} (mem : (name, kind) ∈ builtinScalars) :
    builtin.get? name = some ⟨name, .scalar kind⟩ := by
  have distinct : (builtinScalars.map fun entry =>
      (⟨entry.1, .scalar entry.2⟩ : TypeDescriptor)).Pairwise (·.name ≠ ·.name) := by
    rw [List.pairwise_map]
    decide
  have listed : (⟨name, .scalar kind⟩ : TypeDescriptor) ∈
      builtinScalars.map fun entry => ⟨entry.1, .scalar entry.2⟩ := List.mem_map.2 ⟨_, mem, rfl⟩
  have found := @get?_foldl_register_of_mem _ empty _ distinct listed
  rw [builtin_eq_foldl]
  exact found

/-- The built-in types are as they were. -/
theorem get?_registry_of_builtin {c : Config} (valid : c.validate = .ok ()) {name : String}
    {kind : ScalarKind} (mem : (name, kind) ∈ builtinScalars) :
    c.registry.get? name = some ⟨name, .scalar kind⟩ := by
  have other : ∀ d ∈ c.descriptors, d.name ≠ name := by
    rintro d declared rfl
    obtain ⟨-, free, -⟩ := Config.checkType_eq_ok_iff.1 (Config.checkType_of_validate valid d declared)
    have taken : isBuiltin d.name = true := List.any_eq_true.2 ⟨_, mem, beq_self_eq_true _⟩
    cases free.symm.trans taken
  rw [Config.registry, get?_foldl_register_of_notMem other]
  exact get?_builtin mem

end Registry

namespace ScalarKind

theorem holds_iff_of_isNumeric {kind : ScalarKind} (numeric : kind.isNumeric = true) {value : Json} :
    kind.Holds value ↔ ∃ x, value = .number x := by
  cases kind with
  | integer | decimal => rfl
  | text | boolean | date | dateTime => cases numeric

theorem views_builtin {kind : ScalarKind} : ∀ entry ∈ kind.views, ∃ kind' ∈ all,
    (entry.2, kind') ∈ Registry.builtinScalars ∧
      (kind' = kind ∨ kind'.isNumeric = true ∧ kind.isNumeric = true) := by
  cases kind <;> decide

/-- A view leads to a built-in type that has the values it is a view of. -/
theorem holds_of_views {kind : ScalarKind} {name target : String}
    (looked : kind.views.lookup name = some target) :
    ∃ kind', (target, kind') ∈ Registry.builtinScalars ∧
      ∀ value, kind.Holds value → kind'.Holds value := by
  obtain ⟨before, after, views, -⟩ := List.lookup_eq_some_iff.1 looked
  obtain ⟨kind', -, builtin, same⟩ := views_builtin (name, target) (by rw [views]; simp)
  refine ⟨kind', builtin, ?_⟩
  intro value holds
  rcases same with rfl | ⟨numeric', numeric⟩
  · exact holds
  · rw [holds_iff_of_isNumeric numeric']
    exact (holds_iff_of_isNumeric numeric).1 holds

end ScalarKind

/-! ### Reading -/

namespace Registry

variable {c : Config}

/-- One segment leads from a value of a type to a value of the next. -/
theorem fits_read {name target : String} {access : SegmentAccess} {d next : TypeDescriptor}
    (valid : c.validate = .ok ()) (property : d.property? name = some (access, target))
    (found : c.registry.get? target = some next) {value : Json} (fits : c.registry.Fits d value) :
    c.registry.Fits next (ResolvedSegment.read ⟨name, access, next.name⟩ value) := by
  rcases fits with rfl | conforms
  · refine .inl ?_
    cases access <;> rfl
  · cases conforms with
    | atom => cases property
    | record members =>
      rename_i fields
      rw [TypeDescriptor.property?, Shape.property?, Option.map_eq_some_iff] at property
      obtain ⟨target', declared, same⟩ := property
      cases same
      have read : ResolvedSegment.read ⟨name, .field, next.name⟩ (.object fields) =
          (fields.lookup name).getD .null := rfl
      rw [read]
      rcases present : fields.lookup name with _ | member
      · exact .inl rfl
      · by_cases null : member = .null
        · exact .inl null
        · exact .inr (members name target next member declared found present null)
    | scalar holds =>
      rw [TypeDescriptor.property?, Shape.property?, Option.map_eq_some_iff] at property
      obtain ⟨target', looked, same⟩ := property
      cases same
      -- The target of a view is still the built-in type of its name.
      obtain ⟨kind', mem, same⟩ := ScalarKind.holds_of_views looked
      cases (get?_registry_of_builtin valid mem).symm.trans found
      exact .inr (.scalar (same _ holds))

/-- A path leads from a value of a type to a value of the type at its end. -/
theorem fits_of_walk (valid : c.validate = .ok ()) {names : List String}
    {reached last : TypeDescriptor} {segments : List ResolvedSegment}
    (h : c.registry.walk reached names = .ok (segments, last)) {value : Json}
    (fits : c.registry.Fits reached value) :
    c.registry.Fits last (segments.foldl (fun value segment => segment.read value) value) := by
  induction names generalizing reached segments value with
  | nil =>
    cases h
    exact fits
  | cons name names ih =>
    rw [walk] at h
    split at h
    · cases h
    · next access target property =>
      simp only [bind_eq_ok_iff] at h
      obtain ⟨next, found, ⟨others, last'⟩, walked, h⟩ := h
      cases h
      exact ih walked (fits_read valid property (get_eq_ok_iff.1 found) fits)

end Registry

/-! ### Order -/

namespace ScalarKind

/-- What the values of a kind are compared by. -/
def Key : ScalarKind → Type
  | integer | decimal => ℚ
  | text => String
  | boolean => Bool
  | date => Date
  | dateTime => Instant

instance : (kind : ScalarKind) → Ord kind.Key
  | integer | decimal => inferInstanceAs (Ord ℚ)
  | text => inferInstanceAs (Ord String)
  | boolean => inferInstanceAs (Ord Bool)
  | date => inferInstanceAs (Ord Date)
  | dateTime => inferInstanceAs (Ord Instant)

/-- The key of a value of the kind. -/
def key? : (kind : ScalarKind) → Json → Option kind.Key
  | integer, .number x | decimal, .number x => some x.toRat
  | text, .text s => some s
  | boolean, .boolean b => some b
  | date, .text s => Date.ofText? s
  | dateTime, .text s => Instant.ofText? s
  | _, _ => none

theorem holds_iff_isSome_key? {kind : ScalarKind} {value : Json} :
    kind.Holds value ↔ (kind.key? value).isSome := by
  cases kind with
  | integer | decimal =>
    cases value with
    | number x => exact ⟨fun _ => rfl, fun _ => ⟨x, rfl⟩⟩
    | null | boolean _ | text _ | array _ | object _ => exact ⟨(fun ⟨_, same⟩ => nomatch same), nofun⟩
  | text =>
    cases value with
    | text s => exact ⟨fun _ => rfl, fun _ => ⟨s, rfl⟩⟩
    | null | boolean _ | number _ | array _ | object _ => exact ⟨nofun, nofun⟩
  | boolean =>
    cases value with
    | boolean b => exact ⟨fun _ => rfl, fun _ => ⟨b, rfl⟩⟩
    | null | number _ | text _ | array _ | object _ => exact ⟨nofun, nofun⟩
  | date | dateTime =>
    cases value with
    | text s =>
      rw [Option.isSome_iff_exists]
      exact ⟨fun ⟨_, k, same, parsed⟩ => by cases same; exact ⟨k, parsed⟩,
        fun ⟨k, parsed⟩ => ⟨s, k, rfl, parsed⟩⟩
    | null | boolean _ | number _ | array _ | object _ => exact ⟨nofun, nofun⟩

end ScalarKind

theorem Converts.exists_kind {valueType : TypeDescriptor} {l : Literal} {operand : Operand}
    (converts : Converts valueType l operand) : ∃ kind, valueType.scalarKind? = some kind := by
  cases converts with
  | integer scalar | decimal scalar | text scalar | boolean scalar | date scalar | dateTime scalar =>
    exact ⟨_, scalar⟩

/-- A converted literal compares the keys of its kind with one key. -/
theorem Converts.exists_bound {valueType : TypeDescriptor} {l : Literal} {operand : Operand}
    (converts : Converts valueType l operand) {kind : ScalarKind}
    (scalar : valueType.scalarKind? = some kind) :
    ∃ bound : kind.Key, ∀ value, operand.ordering? value = (kind.key? value).map (compare · bound) := by
  cases converts with
  | integer scalar' numeric n =>
    cases kind with
    | integer | decimal =>
      refine ⟨(n : ℚ), fun value => ?_⟩
      cases value with
      | number x => exact Operand.ordering?_integer n x
      | null | boolean _ | text _ | array _ | object _ => rfl
    | text | boolean | date | dateTime =>
      cases scalar.symm.trans scalar'
      cases numeric
  | decimal scalar' numeric d =>
    cases kind with
    | integer | decimal =>
      refine ⟨d.toRat, fun value => ?_⟩
      cases value with
      | number x => exact Operand.ordering?_decimal d x
      | null | boolean _ | text _ | array _ | object _ => rfl
    | text | boolean | date | dateTime =>
      cases scalar.symm.trans scalar'
      cases numeric
  | text scalar' s =>
    cases scalar.symm.trans scalar'
    exact ⟨s, fun value => by cases value <;> rfl⟩
  | boolean scalar' b =>
    cases scalar.symm.trans scalar'
    exact ⟨b, fun value => by cases value <;> rfl⟩
  | date scalar' parsed =>
    cases scalar.symm.trans scalar'
    exact ⟨_, fun value => by cases value <;> rfl⟩
  | dateTime scalar' parsed =>
    cases scalar.symm.trans scalar'
    exact ⟨_, fun value => by cases value <;> rfl⟩

/-- A value of a type compares with every literal that converts to the type. -/
theorem Converts.exists_ordering {r : Registry} {valueType : TypeDescriptor} {l : Literal}
    {operand : Operand} (converts : Converts valueType l operand) {value : Json}
    (conforms : r.Conforms valueType value) : ∃ o, operand.ordering? value = some o := by
  obtain ⟨kind, scalar⟩ := converts.exists_kind
  obtain ⟨bound, compares⟩ := converts.exists_bound scalar
  cases conforms with
  | record _ | atom _ => cases scalar
  | scalar holds =>
    cases scalar
    rw [compares, ← Option.isSome_iff_exists, Option.isSome_map]
    exact ScalarKind.holds_iff_isSome_key?.1 holds

/-- A literal is ordered by a type if it converts. -/
theorem Comparator.converts_of_ordering {valueType : TypeDescriptor} {op : Operator} {l : Literal}
    {offset : Nat} (ordering : op.requiresOrdering = true)
    (resolves : Resolves valueType ⟨op, l, offset⟩) : ∃ operand, Converts valueType l operand := by
  obtain ⟨k, resolved⟩ := resolves
  obtain ⟨-, converts | ⟨-, unordered, -⟩⟩ := resolve_eq_ok_iff.1 resolved
  · exact ⟨k.operand, converts⟩
  · cases ordering.symm.trans unordered

/-- Of `<`, `==` and `>`, one accepts an ordering. -/
theorem Operator.accepts_iff (o : Ordering) :
    ∀ op ∈ [lt, eq, gt], op.accepts o = true ↔ op = o.casesOn lt eq gt := by
  cases o <;> decide

theorem Operator.existsUnique_accepts (o : Ordering) :
    ∃! op, op ∈ [lt, eq, gt] ∧ op.accepts o = true := by
  have listed : o.casesOn lt eq gt ∈ [lt, eq, gt] := by cases o <;> decide
  refine ⟨o.casesOn lt eq gt, ⟨listed, (accepts_iff o _ listed).2 rfl⟩, ?_⟩
  rintro op ⟨mem, accepts⟩
  exact (accepts_iff o op mem).1 accepts

/-- The three tests of an order against a converted literal exclude each other and leave nothing
out; the other two negate one of them. -/
structure Operand.Orders (operand : Operand) (value : Json) : Prop where
  one : ∃! op, op ∈ [Operator.lt, .eq, .gt] ∧ (⟨op, operand⟩ : Comparator).test value = true
  le : (⟨.le, operand⟩ : Comparator).test value = !(⟨.gt, operand⟩ : Comparator).test value
  ge : (⟨.ge, operand⟩ : Comparator).test value = !(⟨.lt, operand⟩ : Comparator).test value

theorem Operand.orders_of_ordering {operand : Operand} (typed : ∀ l, operand ≠ .literal l)
    {value : Json} {o : Ordering} (compares : operand.ordering? value = some o) :
    operand.Orders value := by
  have test (op : Operator) : (⟨op, operand⟩ : Comparator).test value = op.accepts o := by
    rw [Comparator.test_typed operand typed, compares]
  constructor
  · simp only [test]
    exact Operator.existsUnique_accepts o
  · rw [test, test]
    cases o <;> rfl
  · rw [test, test]
    cases o <;> rfl

namespace Registry

/-- In a valid configuration a path that leads from one type to another leads from the values of the
one to values of the other, `null` aside. Against a literal that the type at the end orders, such a
value is less, equal or greater, and only one of these. -/
theorem typed_read {c : Config} (valid : c.validate = .ok ()) {subject : String}
    {path : AccessorPath} {a : ResolvedAccessor} (resolved : c.registry.resolve subject path = .ok a) :
    ∃ start, c.registry.get? subject = some start ∧
      ∀ fact, fact = .null ∨ c.registry.Conforms start fact →
        (a.read fact = .null ∨ c.registry.Conforms a.valueType (a.read fact)) ∧
        (a.read fact ≠ .null → ∀ l op offset, op.requiresOrdering = true →
          Comparator.Resolves a.valueType ⟨op, l, offset⟩ →
            ∃ operand, (∀ op' offset', Comparator.resolve a.valueType ⟨op', l, offset'⟩ =
                .ok ⟨op', operand⟩) ∧
              operand.Orders (a.read fact)) := by
  simp only [resolve, bind_eq_ok_iff] at resolved
  obtain ⟨start, found, ⟨segments, last⟩, walked, same⟩ := resolved
  cases same
  refine ⟨start, get_eq_ok_iff.1 found, ?_⟩
  intro fact fits
  have reached := fits_of_walk valid walked fits
  refine ⟨reached, ?_⟩
  intro present l op offset ordering resolves
  obtain ⟨operand, converts⟩ := Comparator.converts_of_ordering ordering resolves
  have conforms := reached.resolve_left present
  obtain ⟨o, compares⟩ := converts.exists_ordering conforms
  refine ⟨operand, ?_, Operand.orders_of_ordering converts.typed compares⟩
  intro op' offset'
  exact Comparator.resolve_of_converts converts

/-- Persons have friends that are persons. -/
def personProperties : Std.TreeMap String String :=
  .ofList [("friend", "Person"), ("born", "LocalDate")]

def persons : Config := { types := .ofList [("Person", Shape.record personProperties)] }

theorem typed_read_friend_born :
    let friend : Json := .object [("friend", .null), ("born", .text "2000-02-29")]
    persons.validate = .ok () ∧
      ∃ a, persons.registry.resolve "Person" ⟨["friend", "born"]⟩ = .ok a ∧
        ∃ operand, Comparator.resolve a.valueType ⟨.lt, .text "2001-01-01", 0⟩ = .ok ⟨.lt, operand⟩ ∧
          operand.Orders (a.read (.object [("friend", friend), ("born", .null)])) := by
  intro friend
  have valid : persons.validate = .ok () := rfl
  let a : ResolvedAccessor := ⟨⟨["friend", "born"]⟩, "Person",
    [⟨"friend", .field, "Person"⟩, ⟨"born", .field, "LocalDate"⟩], ⟨"LocalDate", .scalar .date⟩⟩
  have resolved : persons.registry.resolve "Person" ⟨["friend", "born"]⟩ = .ok a := rfl
  have person : persons.registry.get? "Person" = some ⟨"Person", .record personProperties⟩ := rfl
  have day : persons.registry.get? "LocalDate" = some ⟨"LocalDate", .scalar .date⟩ := rfl
  have listed : personProperties.toList = [("born", "LocalDate"), ("friend", "Person")] := rfl
  have isDay : (Date.ofText? "2000-02-29").isSome = true := rfl
  have isBound : (Date.ofText? "2001-01-01").isSome = true := rfl
  obtain ⟨born, parsed⟩ := Option.isSome_iff_exists.1 isDay
  obtain ⟨bound, parsed'⟩ := Option.isSome_iff_exists.1 isBound
  have members {fields : List (String × Json)}
      (friends : ∀ value, fields.lookup "friend" = some value → value ≠ .null →
        persons.registry.Conforms ⟨"Person", .record personProperties⟩ value)
      (days : ∀ value, fields.lookup "born" = some value → value ≠ .null →
        ScalarKind.date.Holds value) :
      persons.registry.Conforms ⟨"Person", .record personProperties⟩ (.object fields) := by
    refine .record ?_
    intro property target next value declared found looked present
    have entry := Std.TreeMap.mem_toList_iff_getElem?_eq_some.2 declared
    rw [listed] at entry
    rcases List.mem_pair.1 entry with same | same
    · cases same
      cases day.symm.trans found
      exact .scalar (days value looked present)
    · cases same
      cases person.symm.trans found
      exact friends value looked present
  have conforms : persons.registry.Conforms ⟨"Person", .record personProperties⟩
      (.object [("friend", friend), ("born", .null)]) := by
    refine members ?_ ?_
    · rintro value ⟨⟩ -
      refine members ?_ ?_
      · rintro value ⟨⟩ present
        exact (present rfl).elim
      · rintro value ⟨⟩ -
        exact ⟨_, born, rfl, parsed⟩
    · rintro value ⟨⟩ present
      exact (present rfl).elim
  obtain ⟨start, found, typed⟩ := typed_read valid resolved
  cases person.symm.trans found
  obtain ⟨-, orders⟩ := typed _ (.inr conforms)
  obtain ⟨operand, resolves, ordered⟩ := orders nofun (.text "2001-01-01") .lt 0 rfl
    ⟨_, Comparator.resolve_of_converts (.date rfl parsed')⟩
  exact ⟨valid, a, resolved, operand, resolves .lt 0, ordered⟩

end Registry

end HalfBinary

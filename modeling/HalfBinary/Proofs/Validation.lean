import HalfBinary.Accessor
import HalfBinary.Config.Validation

/-!
# Valid configurations

What a configuration that has been checked is made of. A clause reads the name of every property of
its types as a property (`property_of_validate`), and so every segment of a path
(`property_of_resolve`).
-/

namespace HalfBinary

/-- A name that a clause reads as a property: an identifier that is none of the reserved words. -/
def IsProperty (name : String) : Prop :=
  Text.isIdentifier name.toList = true ∧ name ∉ Config.reservedWords

theorem forM_eq_ok_iff {xs : List α} {f : α → Except ε PUnit} {u : PUnit} :
    xs.forM f = .ok u ↔ ∀ x ∈ xs, f x = .ok u := by
  induction xs with
  | nil => exact ⟨fun _ => List.forall_mem_nil _, fun _ => rfl⟩
  | cons x xs ih =>
    rw [List.forM_eq_forM, List.forM_cons, bind_eq_ok_iff, List.forall_mem_cons, ← ih]
    constructor
    · rintro ⟨⟨⟩, first, others⟩
      exact ⟨first, others⟩
    · rintro ⟨first, others⟩
      exact ⟨_, first, others⟩

theorem ite_error_eq_ok_iff {p : Prop} [Decidable p] {e : ε} {x : Except ε α} {a : α} :
    (if p then .error e else x) = .ok a ↔ ¬ p ∧ x = .ok a := by
  by_cases h : p
  · simp [h]
  · simp [h]

/-- Two checks pass one after the other if both do. -/
theorem check_then_eq_ok_iff {x : Except ε Unit} {f : Unit → Except ε α} {a : α} :
    x >>= f = .ok a ↔ x = .ok () ∧ f () = .ok a := by
  rw [bind_eq_ok_iff]
  constructor
  · rintro ⟨⟨⟩, first, second⟩
    exact ⟨first, second⟩
  · rintro ⟨first, second⟩
    exact ⟨(), first, second⟩

/-- A name that a configuration accepts. -/
structure IsName (name : String) : Prop where
  short : name.utf8ByteSize ≤ 128
  property : IsProperty name

namespace Config

theorem nameFault?_eq_none_iff {name : String} : nameFault? name = none ↔ IsName name := by
  have isName_iff : IsName name ↔ ¬ maxNameBytes < name.utf8ByteSize ∧
      Text.isIdentifier name.toList = true ∧ name ∉ reservedWords := by
    rw [Nat.not_lt]
    exact ⟨fun h => ⟨h.short, h.property⟩, fun h => ⟨h.1, h.2⟩⟩
  rw [isName_iff, nameFault?]
  by_cases long : maxNameBytes < name.utf8ByteSize
  · simp [long]
  · by_cases identifier : Text.isIdentifier name.toList = true
    · simp [long, identifier]
    · simp [long, identifier]

theorem checkName_eq_ok_iff {role : NameRole} {name : String} {u : Unit} :
    checkName role name = .ok u ↔ IsName name := by
  rw [← nameFault?_eq_none_iff, checkName]
  cases nameFault? name with
  | none => exact ⟨fun _ => rfl, fun _ => rfl⟩
  | some fault => exact ⟨nofun, nofun⟩

theorem checkProperty_eq_ok_iff {owner : String} {property : String × String} {u : Unit} :
    checkProperty owner property = .ok u ↔ IsName property.1 ∧ IsName property.2 := by
  rw [checkProperty, check_then_eq_ok_iff, checkName_eq_ok_iff, checkName_eq_ok_iff]

theorem checkType_record (name : String) (properties : Std.TreeMap String String) :
    checkType ⟨name, .record properties⟩ = checkName .type name >>= fun _ =>
      if Registry.isBuiltin name then .error (.builtinType name)
      else if maxProperties < properties.size then .error (.tooManyProperties name)
      else properties.toList.forM (checkProperty name) := rfl

theorem checkType_eq_ok_iff {d : TypeDescriptor} {u : Unit} :
    checkType d = .ok u ↔ IsName d.name ∧ Registry.isBuiltin d.name = false ∧
      ∀ properties, d.shape = .record properties → properties.size ≤ 256 ∧
        ∀ property target, properties[property]? = some target → IsName property ∧ IsName target := by
  obtain ⟨name, shape⟩ := d
  cases shape with
  | scalar kind | atom =>
    rcases builtin : Registry.isBuiltin name with _ | _
    · simp [checkType, builtin, checkName_eq_ok_iff]
    · simp [checkType, builtin, check_then_eq_ok_iff]
  | record properties =>
    have entries : (∀ property ∈ properties.toList, checkProperty name property = .ok u) ↔
        ∀ property target, properties[property]? = some target → IsName property ∧ IsName target := by
      simp only [checkProperty_eq_ok_iff, Prod.forall, Std.TreeMap.mem_toList_iff_getElem?_eq_some]
    rw [checkType_record, check_then_eq_ok_iff, checkName_eq_ok_iff, ite_error_eq_ok_iff,
      ite_error_eq_ok_iff, forM_eq_ok_iff, entries, Nat.not_lt, Bool.not_eq_true]
    simp [maxProperties]

theorem validate_eq_ok_iff_checks {c : Config} {u : Unit} :
    c.validate = .ok u ↔ checkLimits c.limits = .ok () ∧ checkAudit c.audit = .ok () ∧
      checkTypes c = .ok () ∧ checkTargets c = .ok () := by
  rw [validate, check_then_eq_ok_iff, check_then_eq_ok_iff, check_then_eq_ok_iff]

theorem checkType_of_validate {c : Config} {u : Unit} (valid : c.validate = .ok u) :
    ∀ d ∈ c.descriptors, checkType d = .ok u := by
  obtain ⟨-, -, checked, -⟩ := validate_eq_ok_iff_checks.1 valid
  rw [checkTypes, ite_error_eq_ok_iff] at checked
  exact forM_eq_ok_iff.1 checked.2

end Config

/-! ### Types of a registry -/

namespace Registry

theorem get?_foldl_register {ds : List TypeDescriptor} {r : Registry} {name : String}
    {d : TypeDescriptor} (found : (ds.foldl register r).get? name = some d) :
    d ∈ ds ∨ r.get? name = some d := by
  induction ds generalizing r with
  | nil => exact .inr found
  | cons first ds ih =>
    rcases ih found with later | found
    · exact .inl (List.mem_cons_of_mem _ later)
    · rw [get?_register] at found
      split at found
      · cases found
        exact .inl List.mem_cons_self
      · exact .inr found

theorem isProperty_of_views {kind : ScalarKind} : ∀ entry ∈ kind.views, IsProperty entry.1 := by
  unfold IsProperty
  cases kind <;> decide

theorem builtin_eq_foldl :
    builtin = (builtinScalars.map fun entry => ⟨entry.1, .scalar entry.2⟩).foldl register empty := by
  rw [List.foldl_map]
  rfl

theorem exists_scalar_of_builtin {name : String} {d : TypeDescriptor}
    (found : builtin.get? name = some d) : ∃ kind, d.shape = .scalar kind := by
  rw [builtin_eq_foldl] at found
  rcases get?_foldl_register found with mem | none
  · obtain ⟨entry, -, rfl⟩ := List.mem_map.1 mem
    exact ⟨entry.2, rfl⟩
  · rw [get?_empty] at none
    cases none

/-- The properties of a valid configuration's types are read as such. -/
theorem property_of_validate {c : Config} (valid : c.validate = .ok ()) {name segment : String}
    {d : TypeDescriptor} (found : c.registry.get? name = some d) {way : SegmentAccess × String}
    (property : d.property? segment = some way) : IsProperty segment := by
  have scalar {kind : ScalarKind} (shape : d.shape = .scalar kind) : IsProperty segment := by
    rw [TypeDescriptor.property?, shape, Shape.property?, Option.map_eq_some_iff] at property
    obtain ⟨target, looked, -⟩ := property
    obtain ⟨before, after, views, -⟩ := List.lookup_eq_some_iff.1 looked
    exact isProperty_of_views (segment, target) (by rw [views]; simp)
  rcases get?_foldl_register found with mem | builtin
  · obtain ⟨name', shape⟩ := d
    cases shape with
    | scalar kind => exact scalar rfl
    | atom => cases property
    | record properties =>
      obtain ⟨-, -, checked⟩ :=
        Config.checkType_eq_ok_iff.1 (Config.checkType_of_validate valid _ mem)
      rw [TypeDescriptor.property?, Shape.property?, Option.map_eq_some_iff] at property
      obtain ⟨target, looked, -⟩ := property
      exact ((checked properties rfl).2 segment target looked).1.property
  · obtain ⟨kind, shape⟩ := exists_scalar_of_builtin builtin
    exact scalar shape

theorem property_of_walk {c : Config} (valid : c.validate = .ok ()) {name : String}
    {names : List String} {reached last : TypeDescriptor} {segments : List ResolvedSegment}
    (found : c.registry.get? name = some reached)
    (h : c.registry.walk reached names = .ok (segments, last)) :
    ∀ segment ∈ names, IsProperty segment := by
  induction names generalizing name reached segments with
  | nil => exact List.forall_mem_nil _
  | cons first names ih =>
    rw [walk] at h
    split at h
    · cases h
    · next access target property =>
      obtain ⟨next, found', h⟩ := bind_eq_ok_iff.1 h
      obtain ⟨⟨segments', last'⟩, walked, h⟩ := bind_eq_ok_iff.1 h
      cases h
      refine List.forall_mem_cons.2 ⟨property_of_validate valid found property, ?_⟩
      exact ih (get_eq_ok_iff.1 found') walked

theorem property_of_resolve {c : Config} (valid : c.validate = .ok ()) {subject : String}
    {path : AccessorPath} {a : ResolvedAccessor} (h : c.registry.resolve subject path = .ok a) :
    ∀ segment ∈ path.segments, IsProperty segment := by
  simp only [resolve, bind_eq_ok_iff] at h
  obtain ⟨start, found, ⟨segments, last⟩, walked, -⟩ := h
  exact property_of_walk valid (get_eq_ok_iff.1 found) walked

end Registry

end HalfBinary

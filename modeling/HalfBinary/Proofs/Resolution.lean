import Mathlib
import HalfBinary.Accessor

/-!
# Resolving paths

A path fails to resolve at its first segment that the type reached so far does not offer, or that
leads to no type (`walk_eq_error_iff`). The latter happens to no path of a registered type exactly
if the registry is valid, and the registry is refused for the first reference in order that leads to
no type (`validate_iff_resolve`).
-/

namespace HalfBinary

/-! ### Properties of a shape -/

namespace Shape

/-- The properties and the names of the types that they lead to, in order. -/
def references : Shape → List (String × String)
  | scalar kind => kind.views
  | record properties => properties.toList
  | atom => []

/-- One property comes before another: by name in a record, and as the views are listed in a
scalar. -/
def Precedes (s : Shape) (first second : String) : Prop :=
  match s with
  | scalar kind => (kind.views.map (·.1)).idxOf first < (kind.views.map (·.1)).idxOf second
  | record _ => first < second
  | atom => False

theorem targets_eq (s : Shape) : s.targets = s.references.map (·.2) := by
  cases s <;> rfl

theorem distinct_views (kind : ScalarKind) : (kind.views.map (·.1)).Nodup := by
  cases kind <;> decide

theorem lookup_views_iff {kind : ScalarKind} {name target : String} :
    kind.views.lookup name = some target ↔ (name, target) ∈ kind.views := by
  rw [List.lookup_eq_some_iff]
  constructor
  · rintro ⟨before, after, views, -⟩
    simp [views]
  · intro mem
    obtain ⟨before, after, views⟩ := List.append_of_mem mem
    refine ⟨before, after, views, ?_⟩
    intro entry earlier
    have distinct := distinct_views kind
    rw [views, List.map_append, List.map_cons] at distinct
    have other := List.disjoint_of_nodup_append distinct (List.mem_map_of_mem earlier)
    have : entry.1 ≠ name := fun same => other (by simp [same])
    simpa using this.symm

theorem exists_property?_iff {s : Shape} {name target : String} :
    (∃ access, s.property? name = some (access, target)) ↔ (name, target) ∈ s.references := by
  cases s with
  | scalar kind => simp [property?, references, lookup_views_iff]
  | record properties => simp [property?, references, Std.TreeMap.mem_toList_iff_getElem?_eq_some]
  | atom => simp [property?, references]

/-- The properties are listed in their order. -/
theorem pairwise_references (s : Shape) : s.references.Pairwise fun x y => s.Precedes x.1 y.1 := by
  cases s with
  | scalar kind =>
    simp only [references, Precedes]
    cases kind <;> decide
  | record properties =>
    refine Std.TreeMap.ordered_keys_toList.imp ?_
    intro x y less
    exact compare_lt_iff_lt.1 less
  | atom => exact .nil

theorem Precedes.asymm {s : Shape} {first second : String} (precedes : s.Precedes first second) :
    ¬ s.Precedes second first := by
  cases s with
  | scalar kind => exact Nat.lt_asymm precedes
  | record properties => exact lt_asymm precedes
  | atom => exact precedes.elim

end Shape

/-- The errors of paths. -/
inductive ClauseError.Unresolved : ClauseError → Prop
  | type (name : String) : Unresolved (.unknownType name)
  | property (typeName segment : String) : Unresolved (.unknownProperty typeName segment)

namespace Registry

variable {r : Registry}

/-! ### Walking -/

/-- The type that segments lead to, one after another. -/
inductive Reaches (r : Registry) : TypeDescriptor → List String → TypeDescriptor → Prop
  | here (d : TypeDescriptor) : Reaches r d [] d
  | onward {d next last : TypeDescriptor} {segment target : String} {access : SegmentAccess}
      {segments : List String} (offers : d.property? segment = some (access, target))
      (found : r.get? target = some next) (others : Reaches r next segments last) :
      Reaches r d (segment :: segments) last

/-- Why a path does not go on from a type: the type does not offer the next segment, or there is no
type that the segment leads to. -/
inductive Stuck (r : Registry) (d : TypeDescriptor) (segment : String) : ClauseError → Prop
  | unoffered (none : d.property? segment = none) : Stuck r d segment (.unknownProperty d.name segment)
  | missing {access : SegmentAccess} {target : String}
      (offers : d.property? segment = some (access, target)) (absent : r.get? target = none) :
      Stuck r d segment (.unknownType target)

theorem get_eq_error_iff {name : String} {e : ClauseError} :
    r.get name = .error e ↔ r.get? name = none ∧ e = .unknownType name := by
  rw [get]
  split
  · next found => simp [found]
  · next absent => simp [absent, eq_comm]

/-- Where a type goes on, a walk is that of the other segments. -/
theorem walk_of_offers {d next : TypeDescriptor} {segment target : String} {access : SegmentAccess}
    (offers : d.property? segment = some (access, target)) (found : r.get? target = some next)
    (segments : List String) :
    r.walk d (segment :: segments) = (r.walk next segments).map fun walked =>
      (⟨segment, access, next.name⟩ :: walked.1, walked.2) := by
  simp only [walk, offers, get_eq_ok_iff.2 found]
  show (r.walk next segments >>= fun walked => pure (_ :: walked.1, walked.2)) = _
  cases r.walk next segments <;> rfl

theorem walk_of_stuck {d : TypeDescriptor} {segment : String} {e : ClauseError}
    (stuck : r.Stuck d segment e) (segments : List String) :
    r.walk d (segment :: segments) = .error e := by
  cases stuck with
  | unoffered none => simp only [walk, none]
  | missing offers absent =>
    simp only [walk, offers, get_eq_error_iff.2 ⟨absent, rfl⟩]
    rfl

/-- A type goes on with a segment or it does not. -/
theorem offers_or_stuck (r : Registry) (d : TypeDescriptor) (segment : String) :
    (∃ access target next, d.property? segment = some (access, target) ∧ r.get? target = some next) ∨
      ∃ e, r.Stuck d segment e := by
  rcases offers : d.property? segment with _ | ⟨access, target⟩
  · exact .inr ⟨_, .unoffered offers⟩
  · rcases found : r.get? target with _ | next
    · exact .inr ⟨_, .missing offers found⟩
    · exact .inl ⟨access, target, next, rfl, found⟩

/-- A walk succeeds where every type on the way goes on. -/
theorem exists_walk_iff {d last : TypeDescriptor} {segments : List String} :
    (∃ resolved, r.walk d segments = .ok (resolved, last)) ↔ r.Reaches d segments last := by
  constructor
  · rintro ⟨resolved, h⟩
    induction segments generalizing d resolved with
    | nil =>
      cases h
      exact .here _
    | cons segment segments ih =>
      rcases offers_or_stuck r d segment with ⟨access, target, next, offers, found⟩ | ⟨e, stuck⟩
      · rw [walk_of_offers offers found] at h
        rcases walked : r.walk next segments with e | ⟨others, last'⟩
        · rw [walked] at h
          cases h
        · rw [walked] at h
          cases h
          exact .onward offers found (ih others walked)
      · cases (walk_of_stuck stuck segments).symm.trans h
  · intro h
    induction h with
    | here => exact ⟨[], rfl⟩
    | onward offers found _ ih =>
      obtain ⟨resolved, walked⟩ := ih
      exact ⟨_, by rw [walk_of_offers offers found, walked]; rfl⟩

/-- A walk fails where the type reached by the segments before does not go on. -/
theorem walk_eq_error_iff {d : TypeDescriptor} {segments : List String} {e : ClauseError} :
    r.walk d segments = .error e ↔ ∃ before segment after reached,
      segments = before ++ segment :: after ∧ r.Reaches d before reached ∧
        r.Stuck reached segment e := by
  constructor
  · intro h
    induction segments generalizing d with
    | nil => cases h
    | cons segment segments ih =>
      rcases offers_or_stuck r d segment with ⟨access, target, next, offers, found⟩ | ⟨e', stuck⟩
      · rw [walk_of_offers offers found] at h
        have walked : r.walk next segments = .error e := by
          rcases walked : r.walk next segments with e' | resolved
          · rw [walked] at h
            cases h
            rfl
          · rw [walked] at h
            cases h
        obtain ⟨before, segment', after, reached, rfl, reaches, stuck⟩ := ih walked
        exact ⟨segment :: before, segment', after, reached, rfl, .onward offers found reaches, stuck⟩
      · cases (walk_of_stuck stuck segments).symm.trans h
        exact ⟨[], segment, segments, d, rfl, .here d, stuck⟩
  · rintro ⟨before, segment, after, reached, rfl, reaches, stuck⟩
    induction reaches with
    | here d => exact walk_of_stuck stuck after
    | onward offers found _ ih =>
      rw [List.cons_append, walk_of_offers offers found, ih stuck]
      rfl

/-- A path of a registered type is resolved by a walk from this type. -/
theorem resolve_eq_map {subject : String} {start : TypeDescriptor}
    (found : r.get? subject = some start) (path : AccessorPath) :
    r.resolve subject path = (r.walk start path.segments).map fun walked =>
      ⟨path, subject, walked.1, walked.2⟩ := by
  rw [resolve, get_eq_ok_iff.2 found]
  rcases walked : r.walk start path.segments with e | ⟨segments, last⟩
  · simp [walked, bind, Except.bind, Except.map]
  · simp [walked, bind, Except.bind, Except.map, pure, Except.pure]

theorem resolve_of_unregistered {subject : String} (absent : r.get? subject = none)
    (path : AccessorPath) : r.resolve subject path = .error (.unknownType subject) := by
  rw [resolve, get_eq_error_iff.2 ⟨absent, rfl⟩]
  rfl

theorem resolve_eq_error_iff_walk {subject : String} {start : TypeDescriptor}
    (found : r.get? subject = some start) {path : AccessorPath} {e : ClauseError} :
    r.resolve subject path = .error e ↔ r.walk start path.segments = .error e := by
  rw [resolve_eq_map found]
  rcases r.walk start path.segments with e' | walked <;> simp [Except.map]

/-- A path does not resolve for a type or a property that is not known. -/
theorem unresolved_of_resolve {subject : String} {path : AccessorPath} {e : ClauseError}
    (h : r.resolve subject path = .error e) : e.Unresolved := by
  rcases found : r.get? subject with _ | start
  · rw [resolve_of_unregistered found] at h
    cases h
    exact .type subject
  · rw [resolve_eq_error_iff_walk found] at h
    obtain ⟨_, _, _, _, _, _, stuck⟩ := walk_eq_error_iff.1 h
    cases stuck with
    | unoffered => exact .property _ _
    | missing => exact .type _

/-- A path of a registered type resolves where every type on its way goes on. -/
theorem exists_resolve_iff {subject : String} {start last : TypeDescriptor}
    (found : r.get? subject = some start) {path : AccessorPath} :
    (∃ a, r.resolve subject path = .ok a ∧ a.valueType = last) ↔
      r.Reaches start path.segments last := by
  rw [← exists_walk_iff, resolve_eq_map found]
  rcases r.walk start path.segments with e | ⟨resolved, last'⟩ <;> simp [Except.map]

/-! ### References in order -/

/-- A property of a type, and the name of the type it leads to. -/
structure Reference where
  owner : String
  property : String
  target : String

/-- The references of all types in order. -/
def references (r : Registry) : List Reference :=
  r.shapes.toList.flatMap fun entry => entry.2.references.map fun p => ⟨entry.1, p.1, p.2⟩

/-- A registered type has the property. -/
def Holds (r : Registry) (x : Reference) : Prop :=
  ∃ d access, r.get? x.owner = some d ∧ d.property? x.property = some (access, x.target)

/-- A reference of a registered type that leads to no type. -/
def Dangling (r : Registry) (x : Reference) : Prop := r.Holds x ∧ r.get? x.target = none

/-- One reference comes before another: that of a type whose name is before the other's, or an
earlier one of the same type. -/
def Precedes (r : Registry) (x y : Reference) : Prop :=
  x.owner < y.owner ∨
    x.owner = y.owner ∧ ∃ d, r.get? x.owner = some d ∧ d.shape.Precedes x.property y.property

theorem mem_references_iff {x : Reference} : x ∈ r.references ↔ r.Holds x := by
  simp only [references, List.mem_flatMap, List.mem_map, Holds, TypeDescriptor.property?]
  constructor
  · rintro ⟨⟨owner, shape⟩, entry, ⟨property, target⟩, mem, rfl⟩
    obtain ⟨access, offers⟩ := Shape.exists_property?_iff.2 mem
    refine ⟨⟨owner, shape⟩, access, ?_, offers⟩
    simp [get?, Std.TreeMap.mem_toList_iff_getElem?_eq_some.1 entry]
  · rintro ⟨d, access, found, offers⟩
    obtain ⟨shape, looked, rfl⟩ := Option.map_eq_some_iff.1 found
    exact ⟨(x.owner, shape), Std.TreeMap.mem_toList_iff_getElem?_eq_some.2 looked,
      (x.property, x.target), Shape.exists_property?_iff.1 ⟨access, offers⟩, rfl⟩

/-- The references are listed in their order. -/
theorem pairwise_references (r : Registry) : r.references.Pairwise r.Precedes := by
  rw [references, List.pairwise_flatMap]
  constructor
  · rintro ⟨name, shape⟩ entry
    rw [List.pairwise_map]
    refine shape.pairwise_references.imp ?_
    intro p q precedes
    refine .inr ⟨rfl, ⟨name, shape⟩, ?_, precedes⟩
    simp [get?, Std.TreeMap.mem_toList_iff_getElem?_eq_some.1 entry]
  · refine Std.TreeMap.ordered_keys_toList.imp ?_
    intro entry entry' less x mem y mem'
    obtain ⟨p, -, rfl⟩ := List.mem_map.1 mem
    obtain ⟨q, -, rfl⟩ := List.mem_map.1 mem'
    exact .inl (compare_lt_iff_lt.1 less)

theorem Precedes.asymm {x y : Reference} (precedes : r.Precedes x y) : ¬ r.Precedes y x := by
  rintro (less' | ⟨same', d', found', inside'⟩)
  · rcases precedes with less | ⟨same, -⟩
    · exact lt_asymm less less'
    · exact (ne_of_lt less') same.symm
  · rcases precedes with less | ⟨same, d, found, inside⟩
    · exact (ne_of_lt less) same'.symm
    · rw [same, found'] at found
      cases found
      exact inside.asymm inside'

/-- The first element that has a property, in a list that is in order. -/
theorem find?_eq_some_iff_first {R : α → α → Prop} {xs : List α} (ordered : xs.Pairwise R)
    (asymm : ∀ x y, R x y → ¬ R y x) {p : α → Bool} {x : α} :
    xs.find? p = some x ↔ x ∈ xs ∧ p x = true ∧ ∀ y ∈ xs, p y = true → y ≠ x → R x y := by
  have first {x : α} (found : xs.find? p = some x) : ∀ y ∈ xs, p y = true → y ≠ x → R x y := by
    obtain ⟨-, before, after, rfl, none⟩ := List.find?_eq_some_iff_append.1 found
    intro y mem holds other
    rcases List.mem_append.1 mem with earlier | later
    · have := none y earlier
      simp [holds] at this
    · have later := (List.mem_cons.1 later).resolve_left other
      exact (List.pairwise_cons.1 (List.pairwise_append.1 ordered).2.1).1 y later
  constructor
  · intro found
    exact ⟨List.mem_of_find?_eq_some found, List.find?_some found, first found⟩
  · rintro ⟨mem, holds, least⟩
    obtain ⟨x', found⟩ := Option.isSome_iff_exists.1 (List.find?_isSome.2 ⟨x, mem, holds⟩)
    by_cases same : x' = x
    · rw [found, same]
    · have before := least x' (List.mem_of_find?_eq_some found) (List.find?_some found) same
      exact absurd (first found x mem holds (Ne.symm same)) (asymm x x' before)

/-! ### Validity -/

theorem missing?_eq (r : Registry) :
    r.missing? = (r.references.find? fun x => !r.contains x.target).map (·.target) := by
  have targets : r.targets = r.references.map (·.target) := by
    simp only [Registry.targets, references, List.map_flatMap, List.map_map, Shape.targets_eq]
    rfl
  rw [missing?, targets, List.find?_map]
  rfl

theorem contains_eq_false_iff {name : String} : r.contains name = false ↔ r.get? name = none := by
  rw [contains_eq_isSome_get?, Option.isSome_eq_false_iff, Option.isNone_iff_eq_none]

theorem validate_eq_ok_iff : r.validate = .ok () ↔ ∀ x, ¬ r.Dangling x := by
  have none_iff : r.missing? = none ↔ ∀ x, ¬ r.Dangling x := by
    rw [missing?_eq, Option.map_eq_none_iff, List.find?_eq_none]
    refine forall_congr' fun x => ?_
    rw [mem_references_iff, Dangling, ← contains_eq_false_iff]
    simp
  rw [← none_iff, validate]
  rcases r.missing? with _ | target
  · simp
  · simp

theorem validate_eq_error_iff {e : ClauseError} :
    r.validate = .error e ↔ ∃ x, e = .unknownType x.target ∧ r.Dangling x ∧
      ∀ y, r.Dangling y → y ≠ x → r.Precedes x y := by
  have some_iff {x : Reference} : r.references.find? (fun x => !r.contains x.target) = some x ↔
      r.Dangling x ∧ ∀ y, r.Dangling y → y ≠ x → r.Precedes x y := by
    rw [find?_eq_some_iff_first r.pairwise_references fun _ _ => Precedes.asymm]
    simp only [mem_references_iff, Bool.not_eq_true', contains_eq_false_iff, Dangling, and_assoc,
      and_imp]
  have error_iff : r.validate = .error e ↔ ∃ target, r.missing? = some target ∧
      e = .unknownType target := by
    rw [validate]
    rcases r.missing? with _ | target
    · simp
    · simp [eq_comm]
  rw [error_iff, missing?_eq]
  constructor
  · rintro ⟨target, missing, rfl⟩
    obtain ⟨x, found, rfl⟩ := Option.map_eq_some_iff.1 missing
    exact ⟨x, rfl, some_iff.1 found⟩
  · rintro ⟨x, rfl, first⟩
    exact ⟨x.target, by rw [some_iff.2 first]; rfl, rfl⟩

/-! ### Valid registries -/

/-- A type is found under its own name. -/
theorem name_of_get? {name : String} {d : TypeDescriptor} (found : r.get? name = some d) :
    d.name = name := by
  obtain ⟨shape, -, rfl⟩ := Option.map_eq_some_iff.1 found
  rfl

/-- Registered types lead to registered types. -/
theorem Reaches.registered {d last : TypeDescriptor} {segments : List String}
    (reaches : r.Reaches d segments last) (found : r.get? d.name = some d) :
    r.get? last.name = some last := by
  induction reaches with
  | here => exact found
  | onward _ found' _ ih => exact ih (name_of_get? found' ▸ found')

/-- A path of a registered type that meets a missing type ends in a reference that dangles. -/
theorem exists_dangling_of_walk {d : TypeDescriptor} (found : r.get? d.name = some d)
    {segments : List String} {name : String} (h : r.walk d segments = .error (.unknownType name)) :
    ∃ x, r.Dangling x := by
  obtain ⟨before, segment, after, reached, rfl, reaches, stuck⟩ := walk_eq_error_iff.1 h
  cases stuck with
  | missing offers absent =>
    exact ⟨⟨reached.name, segment, name⟩, ⟨reached, _, reaches.registered found, offers⟩, absent⟩

theorem resolve_of_dangling {x : Reference} (dangling : r.Dangling x) :
    r.resolve x.owner ⟨[x.property]⟩ = .error (.unknownType x.target) := by
  obtain ⟨⟨d, access, found, offers⟩, absent⟩ := dangling
  rw [resolve_eq_error_iff_walk found]
  exact walk_of_stuck (.missing offers absent) []

theorem exists_get?_of_contains {name : String} (registered : r.contains name = true) :
    ∃ d, r.get? name = some d := by
  rw [contains_eq_isSome_get?] at registered
  exact Option.isSome_iff_exists.1 registered

/-- A registry is valid exactly if no path of a registered type meets a type that is not there,
whatever the types that have been registered. In a valid registry a path of a registered type fails
only at its first segment that the type reached so far does not offer, and the error names this
segment and this type. A registry that is not valid is refused for the first of its references that
lead to no type, types in the order of their names. -/
theorem validate_iff_resolve (r : Registry) :
    (r.validate = .ok () ↔ ∀ subject path name, r.contains subject = true →
      r.resolve subject path ≠ .error (.unknownType name)) ∧
    (r.validate = .ok () → ∀ subject start, r.get? subject = some start → ∀ path e,
      (r.resolve subject path = .error e ↔ ∃ before segment after reached,
        path.segments = before ++ segment :: after ∧ r.Reaches start before reached ∧
          reached.property? segment = none ∧ e = .unknownProperty reached.name segment)) ∧
    ∀ e, r.validate = .error e ↔ ∃ x, e = .unknownType x.target ∧ r.Dangling x ∧
      ∀ y, r.Dangling y → y ≠ x → r.Precedes x y := by
  refine ⟨⟨?_, ?_⟩, ?_, fun e => validate_eq_error_iff⟩
  · intro valid subject path name registered failed
    obtain ⟨start, found⟩ := exists_get?_of_contains registered
    have walked := (resolve_eq_error_iff_walk found).1 failed
    have own : r.get? start.name = some start := name_of_get? found ▸ found
    obtain ⟨x, dangling⟩ := exists_dangling_of_walk own walked
    exact validate_eq_ok_iff.1 valid x dangling
  · intro resolves
    refine validate_eq_ok_iff.2 ?_
    intro x dangling
    obtain ⟨d, access, found, -⟩ := dangling.1
    have registered : r.contains x.owner = true := by simp [contains_eq_isSome_get?, found]
    exact resolves x.owner _ x.target registered (resolve_of_dangling dangling)
  · intro valid subject start found path e
    have own : r.get? start.name = some start := name_of_get? found ▸ found
    rw [resolve_eq_error_iff_walk found, walk_eq_error_iff]
    constructor
    · rintro ⟨before, segment, after, reached, same, reaches, stuck⟩
      refine ⟨before, segment, after, reached, same, reaches, ?_⟩
      cases stuck with
      | unoffered none => exact ⟨none, rfl⟩
      | missing offers absent =>
        have dangling : r.Dangling ⟨reached.name, segment, _⟩ :=
          ⟨⟨reached, _, reaches.registered own, offers⟩, absent⟩
        exact (validate_eq_ok_iff.1 valid _ dangling).elim
    · rintro ⟨before, segment, after, reached, same, reaches, none, rfl⟩
      exact ⟨before, segment, after, reached, same, reaches, .unoffered none⟩

/-- Persons have employers. -/
def staff : Registry :=
  builtin.register ⟨"Person", .record (.ofList [("age", "Integer"), ("employer", "Company")])⟩

theorem validate_staff :
    (∃ x, x.target = "Company" ∧ staff.Dangling x ∧ ∀ y, staff.Dangling y → y ≠ x → staff.Precedes x y) ∧
      (staff.register ⟨"Company", .atom⟩).resolve "Person" ⟨["employer", "name"]⟩ =
        .error (.unknownProperty "Company" "name") := by
  have refused : staff.validate = .error (.unknownType "Company") := rfl
  obtain ⟨-, -, first⟩ := validate_iff_resolve staff
  obtain ⟨x, same, dangling, least⟩ := (first _).1 refused
  refine ⟨⟨x, (ClauseError.unknownType.inj same).symm, dangling, least⟩, ?_⟩
  have valid : (staff.register ⟨"Company", .atom⟩).validate = .ok () := rfl
  obtain ⟨-, fails, -⟩ := validate_iff_resolve (staff.register ⟨"Company", .atom⟩)
  refine (fails valid "Person" _ rfl ⟨["employer", "name"]⟩ _).2 ?_
  exact ⟨["employer"], "name", [], ⟨"Company", .atom⟩, rfl, .onward rfl rfl (.here _), rfl, rfl⟩

end Registry

end HalfBinary

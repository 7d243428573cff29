import Mathlib
import HalfBinary.Proofs.Absence
import HalfBinary.Proofs.Resolution

/-!
# Paths in two parts

To resolve a path is to resolve its first part and then the second from the type that the first
leads to, and to read one value through both parts is to read it through each (`resolve_append`).
-/

namespace HalfBinary

namespace Registry

variable {r : Registry}

/-! ### Registered types -/

/-- Of types of one name the one that was registered last is found. -/
theorem get?_foldl_register_empty (ds : List TypeDescriptor) (name : String) :
    (ds.foldl register empty).get? name = ds.reverse.find? (·.name == name) := by
  induction ds using List.reverseRecOn with
  | nil => exact get?_empty name
  | append_singleton ds d ih =>
    rw [List.foldl_append, List.foldl_cons, List.foldl_nil, get?_register, List.reverse_append,
      List.reverse_singleton, List.singleton_append, List.find?_cons, ih]
    by_cases own : name = d.name
    · simp [own]
    · rw [if_neg own, beq_eq_false_iff_ne.2 (Ne.symm own)]

/-! ### Traces -/

/-- The segments that names are resolved to, one after another: each has the name, the way in which
the type reached so far offers it, and the name of the registered type that it yields. -/
inductive Traces (r : Registry) :
    TypeDescriptor → List String → List ResolvedSegment → TypeDescriptor → Prop
  | here (d : TypeDescriptor) : Traces r d [] [] d
  | onward {d next last : TypeDescriptor} {name : String} {access : SegmentAccess}
      {names : List String} {segments : List ResolvedSegment}
      (offers : d.property? name = some (access, next.name))
      (found : r.get? next.name = some next) (others : Traces r next names segments last) :
      Traces r d (name :: names) (⟨name, access, next.name⟩ :: segments) last

theorem walk_eq_ok_iff {d last : TypeDescriptor} {names : List String}
    {segments : List ResolvedSegment} :
    r.walk d names = .ok (segments, last) ↔ r.Traces d names segments last := by
  constructor
  · intro h
    induction names generalizing d segments with
    | nil =>
      cases h
      exact .here _
    | cons name names ih =>
      rcases offers_or_stuck r d name with ⟨access, target, next, offers, found⟩ | ⟨e, stuck⟩
      · rw [walk_of_offers offers found] at h
        obtain rfl := name_of_get? found
        rcases walked : r.walk next names with e | ⟨others, last'⟩
        · rw [walked] at h
          cases h
        · rw [walked] at h
          cases h
          exact .onward offers found (ih walked)
      · cases (walk_of_stuck stuck names).symm.trans h
  · intro h
    induction h with
    | here d => rfl
    | onward offers found _ ih => rw [walk_of_offers offers found, ih]; rfl

/-- There is one segment for each name. -/
theorem Traces.map_name {d last : TypeDescriptor} {names : List String}
    {segments : List ResolvedSegment} (traces : r.Traces d names segments last) :
    segments.map (·.name) = names := by
  induction traces with
  | here => rfl
  | onward _ _ _ ih => rw [List.map_cons, ih]

/-! ### Walks and paths in two parts -/

/-- A walk goes on from the type that its first part has reached. -/
theorem walk_append (d : TypeDescriptor) (p q : List String) :
    r.walk d (p ++ q) = (r.walk d p).bind fun first =>
      (r.walk first.2 q).map fun second => (first.1 ++ second.1, second.2) := by
  induction p generalizing d with
  | nil =>
    show r.walk d q = (r.walk d q).map fun second => ([] ++ second.1, second.2)
    rcases r.walk d q with e | walked <;> rfl
  | cons name p ih =>
    rcases offers_or_stuck r d name with ⟨access, target, next, offers, found⟩ | ⟨e, stuck⟩
    · rw [List.cons_append, walk_of_offers offers found, walk_of_offers offers found, ih]
      rcases r.walk next p with e | ⟨segments, mid⟩
      · rfl
      · show ((r.walk mid q).map _).map _ = (r.walk mid q).map _
        rcases r.walk mid q with e | walked <;> rfl
    · rw [List.cons_append, walk_of_stuck stuck, walk_of_stuck stuck]
      rfl

/-- What a path that resolves is resolved to. -/
theorem resolve_eq_ok_iff {subject : String} {path : AccessorPath} {a : ResolvedAccessor} :
    r.resolve subject path = .ok a ↔ a.path = path ∧ a.subject = subject ∧
      ∃ start, r.get? subject = some start ∧
        r.Traces start path.segments a.segments a.valueType := by
  rcases found : r.get? subject with _ | start
  · rw [resolve_of_unregistered found]
    simp
  · rw [resolve_eq_map found]
    simp only [Option.some.injEq, exists_eq_left', ← walk_eq_ok_iff]
    obtain ⟨path', subject', segments, valueType⟩ := a
    rcases r.walk start path.segments with e | ⟨segments', last⟩
    · simp [Except.map]
    · simp only [Except.map, Except.ok.injEq, ResolvedAccessor.mk.injEq, Prod.mk.injEq]
      tauto

/-- A path resolves in two parts, whatever the types that have been registered. If its first part
fails, the path fails with the same error. If the first part leads to a type, the second part is
resolved from this type, and the path fails with its error or has the segments of both parts and
leads to the same type; a fact is then read by the first part and what this yields by the second, so
that nothing comes of a first part that yields `null`. There is one segment for each name of a path,
with the name, the way in which the type reached so far offers it, and the registered name of the
type that it yields; under each name stands the type that was registered for it last. -/
theorem resolve_append (r : Registry) (subject : String) (p q : List String) :
    (∀ (ds : List TypeDescriptor) (name : String),
      (ds.foldl register empty).get? name = ds.reverse.find? (·.name == name)) ∧
    (r.resolve subject ⟨p ++ q⟩ = do
      let a ← r.resolve subject ⟨p⟩
      let b ← r.resolve a.valueType.name ⟨q⟩
      return ⟨⟨p ++ q⟩, subject, a.segments ++ b.segments, b.valueType⟩) ∧
    (∀ a, r.resolve subject ⟨p⟩ = .ok a → a.segments.map (·.name) = p ∧
      ∃ start, r.get? subject = some start ∧ r.Traces start p a.segments a.valueType) ∧
    ∀ a b c, r.resolve subject ⟨p⟩ = .ok a → r.resolve a.valueType.name ⟨q⟩ = .ok b →
      r.resolve subject ⟨p ++ q⟩ = .ok c → ∀ fact,
        c.read fact = b.read (a.read fact) ∧ (a.read fact = .null → c.read fact = .null) := by
  have split : r.resolve subject ⟨p ++ q⟩ = do
      let a ← r.resolve subject ⟨p⟩
      let b ← r.resolve a.valueType.name ⟨q⟩
      return (⟨⟨p ++ q⟩, subject, a.segments ++ b.segments, b.valueType⟩ : ResolvedAccessor) := by
    rcases found : r.get? subject with _ | start
    · rw [resolve_of_unregistered found, resolve_of_unregistered found]
      rfl
    · rw [resolve_eq_map found, resolve_eq_map found, walk_append]
      rcases walked : r.walk start p with e | ⟨segments, mid⟩
      · rfl
      · -- The type that the first part reaches is the one that the second starts from.
        have reaches := exists_walk_iff.1 ⟨segments, walked⟩
        have registered := reaches.registered (name_of_get? found ▸ found)
        show ((r.walk mid q).map _).map _ = r.resolve mid.name ⟨q⟩ >>= _
        rw [resolve_eq_map registered]
        rcases r.walk mid q with e | walked' <;> rfl
  refine ⟨get?_foldl_register_empty, split, ?_, ?_⟩
  · intro a resolved
    obtain ⟨-, -, start, found, traces⟩ := resolve_eq_ok_iff.1 resolved
    exact ⟨traces.map_name, start, found, traces⟩
  · intro a b c first second whole fact
    rw [split, first] at whole
    change (r.resolve a.valueType.name ⟨q⟩ >>= _) = _ at whole
    rw [second] at whole
    cases whole
    have parts : ResolvedAccessor.read
        ⟨⟨p ++ q⟩, subject, a.segments ++ b.segments, b.valueType⟩ fact = b.read (a.read fact) :=
      List.foldl_append
    refine ⟨parts, fun missing => ?_⟩
    rw [parts, missing]
    exact ResolvedSegment.foldl_read_null b.segments

theorem resolve_append_age :
    ∃ a b c, staff.resolve "Person" ⟨["age"]⟩ = .ok a ∧
      staff.resolve "Integer" ⟨["doubleValue"]⟩ = .ok b ∧
      staff.resolve "Person" ⟨["age", "doubleValue"]⟩ = .ok c ∧
      c.segments = a.segments ++ b.segments ∧ (∀ fact, c.read fact = b.read (a.read fact)) ∧
      c.read (.object []) = .null ∧
      staff.resolve "Person" ⟨["employer", "age"]⟩ = .error (.unknownType "Company") := by
  let a : ResolvedAccessor :=
    ⟨⟨["age"]⟩, "Person", [⟨"age", .field, "Integer"⟩], ⟨"Integer", .scalar .integer⟩⟩
  let b : ResolvedAccessor :=
    ⟨⟨["doubleValue"]⟩, "Integer", [⟨"doubleValue", .view, "Double"⟩], ⟨"Double", .scalar .decimal⟩⟩
  have first : staff.resolve "Person" ⟨["age"]⟩ = .ok a := rfl
  have second : staff.resolve "Integer" ⟨["doubleValue"]⟩ = .ok b := rfl
  have failed : staff.resolve "Person" ⟨["employer"]⟩ = .error (.unknownType "Company") := rfl
  obtain ⟨-, split, -, reads⟩ := resolve_append staff "Person" ["age"] ["doubleValue"]
  obtain ⟨-, split', -, -⟩ := resolve_append staff "Person" ["employer"] ["age"]
  have whole := split.trans (bind_eq_ok_iff.2 ⟨a, first, bind_eq_ok_iff.2 ⟨b, second, rfl⟩⟩)
  have reads := reads a b _ first second whole
  rw [failed] at split'
  exact ⟨a, b, _, first, second, whole, rfl, fun fact => (reads fact).1, (reads _).2 rfl, split'⟩

end Registry

end HalfBinary

/-!
# Batches of facts

A test applied to many facts: as a mask of up to 64 bits for a window, or as the indices of all
facts that pass. Indices are machine words, and there is no result where one would be past the last
of these.
-/

namespace HalfBinary.Batch

/-- The most facts that one mask covers. -/
def maskBits : Nat := 64

/-- The index at a distance past another. None is past the last machine word. -/
def indexAt? (start : UInt64) (distance : Nat) : Option UInt64 :=
  if start.toNat + distance < UInt64.size then some (start + distance.toUInt64) else none

theorem indexAt?_eq_some_iff {start index : UInt64} {distance : Nat} :
    indexAt? start distance = some index ↔ index.toNat = start.toNat + distance := by
  have word := index.toNat_lt
  unfold indexAt?
  split
  · next fits =>
    have sum : (start + distance.toUInt64).toNat = start.toNat + distance := by
      rw [UInt64.toNat_add, Nat.toUInt64_eq, UInt64.toNat_ofNat', Nat.add_mod_mod]
      exact Nat.mod_eq_of_lt fits
    rw [Option.some.injEq, ← UInt64.toNat_inj, sum]
    exact eq_comm
  · next past =>
    simp only [reduceCtorEq, false_iff]
    simp only [UInt64.size] at past
    omega

theorem indexAt?_eq_none_iff {start : UInt64} {distance : Nat} :
    indexAt? start distance = none ↔ UInt64.size ≤ start.toNat + distance := by
  rw [indexAt?, ite_eq_right_iff]
  simp

/-! ## Windows -/

/-- Whether a bit of a mask is set. -/
def isSet (bits : UInt64) (i : Nat) : Bool := (bits >>> i.toUInt64) &&& 1 == 1

/-- A mask and one more bit, which is set if the fact at the distance passes. An index past the last
fact does not pass. -/
def addBit (test : α → Bool) (facts : Array α) (start bits : UInt64) (i : Nat) : Option UInt64 := do
  let index ← indexAt? start i
  if facts[index.toNat]?.any test then return bits ||| ((1 : UInt64) <<< i.toUInt64)
  else return bits

/-- The mask of at most 64 facts from an index on. -/
def window (test : α → Bool) (facts : Array α) (start count : UInt64) : Option UInt64 :=
  (List.range (min count.toNat maskBits)).foldlM (addBit test facts start) 0

/-! ## All facts -/

/-- The index of a bit that is set, after those already found. -/
def addIndex (bits start : UInt64) (found : Array Nat) (i : Nat) : Option (Array Nat) := do
  if isSet bits i then
    let index ← indexAt? start i
    return found.push index.toNat
  else return found

/-- The indices at or past `start` of the facts that pass, after those already found. -/
def matchingFrom (test : α → Bool) (facts : Array α) (start : UInt64) (found : Array Nat) :
    Option (Array Nat) :=
  if _more : start.toNat < facts.size then
    let count := min (facts.size - start.toNat) maskBits
    match _stop : indexAt? start count with
    | none => none
    | some next => do
      let bits ← window test facts start count.toUInt64
      let found ← (List.range count).foldlM (addIndex bits start) found
      matchingFrom test facts next found
  else some found
termination_by facts.size - start.toNat
decreasing_by
  have further := indexAt?_eq_some_iff.1 _stop
  have positive : 0 < maskBits := Nat.zero_lt_succ 63
  omega

/-- The indices of the facts that pass, in order. -/
def matchingIndices (test : α → Bool) (facts : Array α) : Option (List Nat) :=
  (matchingFrom test facts 0 #[]).map Array.toList

example : window (· % 3 == 0) (Array.range 10) 2 5 = some 0b10010 := by decide +kernel
example : matchingIndices (· % 40 == 0) (Array.range 130) = some [0, 40, 80, 120] := by decide +kernel

end HalfBinary.Batch

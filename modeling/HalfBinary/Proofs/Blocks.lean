import Mathlib
import HalfBinary.Predicate
import HalfBinary.Predicate.Batch

/-!
# Blocks of facts

The bits of a mask are those of the facts that pass (`window_exact_iff`), and the indices that are
read back off the masks of all blocks are those of all facts that pass, block by block
(`matchingIndices_exact`). An index past the last machine word makes both fail; the blocks of facts
that a machine can hold have none.
-/

namespace HalfBinary.Batch

/-! ### Bits of masks -/

/-- Shifting by a number below 64 is not cut short. -/
theorem toNat_toUInt64_mod {place : Nat} (small : place < 64) :
    place.toUInt64.toNat % 64 = place := by
  rw [Nat.toUInt64_eq, UInt64.toNat_ofNat']
  omega

theorem testBit_one_shiftLeft {place : Nat} (small : place < 64) (i : Nat) :
    ((1 : UInt64) <<< place.toUInt64).toNat.testBit i = decide (place = i) := by
  have bounded : 2 ^ place < 2 ^ 64 := Nat.pow_lt_pow_right (by omega) small
  rw [UInt64.toNat_shiftLeft, toNat_toUInt64_mod small, UInt64.toNat_one, Nat.one_shiftLeft,
    Nat.mod_eq_of_lt bounded, Nat.testBit_two_pow]

theorem isSet_eq_testBit (bits : UInt64) {i : Nat} (small : i < 64) :
    isSet bits i = bits.toNat.testBit i := by
  rw [isSet, Nat.testBit, Nat.and_comm, Bool.eq_iff_iff]
  simp only [beq_iff_eq, bne_iff_ne, ← UInt64.toNat_inj, UInt64.toNat_and, UInt64.toNat_shiftRight,
    toNat_toUInt64_mod small, UInt64.toNat_one, Nat.and_one_is_mod]
  omega

/-! ### Loops over places -/

theorem exists_indexAt? (start : UInt64) {i : Nat} (inside : start.toNat + i < 2 ^ 64) :
    ∃ index, indexAt? start i = some index :=
  Option.ne_none_iff_exists'.1 fun past => by
    rw [indexAt?_eq_none_iff, UInt64.size] at past
    omega

/-- A loop over the places below a number ends with the last of them. -/
theorem foldlM_range_succ {β : Type} (f : β → Nat → Option β) (b : β) (n : Nat) :
    (List.range (n + 1)).foldlM f b = (List.range n).foldlM f b >>= fun b' => f b' n := by
  rw [List.range_succ, List.foldlM_append]
  exact bind_congr fun b' => bind_pure (f b' n)

/-! ### Windows -/

variable {α : Type} (test : α → Bool) (facts : Array α)

theorem addBit_of_index {start index : UInt64} {i : Nat} (place : indexAt? start i = some index)
    (bits : UInt64) : addBit test facts start bits i =
      some (if facts[start.toNat + i]?.any test then bits ||| ((1 : UInt64) <<< i.toUInt64)
        else bits) := by
  rw [addBit, place, ← indexAt?_eq_some_iff.1 place]
  dsimp only [bind, Option.bind]
  split <;> rfl

/-- One more bit is that of one more fact. -/
theorem testBit_addBit {bits : UInt64} {passes : Nat → Bool} {n : Nat} (few : n < 64)
    (earlier : ∀ i, bits.toNat.testBit i = (decide (i < n) && passes i)) (i : Nat) :
    (if passes n then bits ||| ((1 : UInt64) <<< n.toUInt64) else bits).toNat.testBit i =
      (decide (i < n + 1) && passes i) := by
  split
  · next last =>
    rw [UInt64.toNat_or, Nat.testBit_or, earlier, testBit_one_shiftLeft few]
    by_cases same : n = i
    · subst same
      simp [last]
    · have before : i < n + 1 ↔ i < n := by omega
      simp [same, before]
  · next last =>
    rw [earlier]
    by_cases same : n = i
    · subst same
      simpa using last
    · have before : i < n + 1 ↔ i < n := by omega
      simp [before]

theorem exists_foldlM_addBit {start : UInt64} {n : Nat} (few : n ≤ 64)
    (inside : start.toNat + n ≤ 2 ^ 64) :
    ∃ bits, (List.range n).foldlM (addBit test facts start) 0 = some bits ∧
      ∀ i, bits.toNat.testBit i = (decide (i < n) && facts[start.toNat + i]?.any test) := by
  induction n with
  | zero => exact ⟨0, rfl, fun i => by simp⟩
  | succ n ih =>
    obtain ⟨bits, read, earlier⟩ := ih (by omega) (by omega)
    obtain ⟨index, place⟩ := exists_indexAt? start (show start.toNat + n < 2 ^ 64 by omega)
    refine ⟨_, ?_, testBit_addBit few earlier⟩
    rw [foldlM_range_succ, read]
    exact addBit_of_index test facts place bits

theorem foldlM_addBit_eq_none {start : UInt64} {n : Nat} (past : 2 ^ 64 < start.toNat + n) :
    (List.range n).foldlM (addBit test facts start) 0 = none := by
  induction n with
  | zero => exact absurd start.toNat_lt (by omega)
  | succ n ih =>
    rw [foldlM_range_succ]
    rcases read : (List.range n).foldlM (addBit test facts start) 0 with _ | bits
    · rfl
    · -- The places before are words, so it is the last that is none.
      have inside : ¬ 2 ^ 64 < start.toNat + n := fun past => by
        rw [ih past] at read
        cases read
      have place : indexAt? start n = none := by
        rw [indexAt?_eq_none_iff, UInt64.size]
        omega
      show addBit test facts start bits n = none
      rw [addBit, place]
      rfl

theorem exists_window (start count : UInt64)
    (inside : start.toNat + min count.toNat 64 ≤ 2 ^ 64) :
    ∃ bits, window test facts start count = some bits ∧
      ∀ i, bits.toNat.testBit i =
        (decide (i < min count.toNat 64) && facts[start.toNat + i]?.any test) :=
  exists_foldlM_addBit test facts (Nat.min_le_right _ _) inside

variable {test facts} in
theorem le_of_window {start count bits : UInt64} (read : window test facts start count = some bits) :
    start.toNat + min count.toNat 64 ≤ 2 ^ 64 := by
  by_contra past
  have none := foldlM_addBit_eq_none test facts (Nat.not_le.1 past)
  cases none.symm.trans read

variable {test facts} in
theorem testBit_window {start count bits : UInt64} (read : window test facts start count = some bits)
    (i : Nat) : bits.toNat.testBit i =
      (decide (i < min count.toNat 64) && facts[start.toNat + i]?.any test) := by
  obtain ⟨bits', read', each⟩ := exists_window test facts start count (le_of_window read)
  obtain rfl : bits' = bits := Option.some.inj (read'.symm.trans read)
  exact each i

/-- There is a mask of a window exactly if it does not run past the last machine word, and then it
has the bits of the facts that pass, and no bit for what is past the last of them. -/
theorem window_exact_iff (start count : UInt64) :
    ((∃ bits, window test facts start count = some bits) ↔
      start.toNat + min count.toNat 64 ≤ 2 ^ 64) ∧
    ∀ bits, window test facts start count = some bits → ∀ i, bits.toNat.testBit i =
      (decide (i < min count.toNat 64) && facts[start.toNat + i]?.any test) := by
  refine ⟨⟨?_, ?_⟩, fun bits read => testBit_window read⟩
  · rintro ⟨bits, read⟩
    exact le_of_window read
  · intro inside
    obtain ⟨bits, read, -⟩ := exists_window test facts start count inside
    exact ⟨bits, read⟩

/-- The last word is past the only fact, and a window of one place stops there. -/
theorem window_exact_last_word :
    ∃ bits, window (· == 1) #[1] 18446744073709551615 1 = some bits ∧
      bits.toNat.testBit 0 = false := by
  have last : (18446744073709551615 : UInt64).toNat = 18446744073709551615 := by decide
  have one : (1 : UInt64).toNat = 1 := by decide
  obtain ⟨exists_iff, exact⟩ := window_exact_iff (· == 1) #[1] 18446744073709551615 1
  obtain ⟨bits, read⟩ := exists_iff.2 (by rw [last, one]; decide)
  exact ⟨bits, read, by simpa [last] using exact bits read 0⟩

/-- With one place more there is no mask, though all its facts are past the last one. -/
theorem window_not_exact :
    ∃ p, Predicate.compile .builtin "Integer" {} "this == 1" = .ok p ∧
      window p.evaluate #[.whole 1] 18446744073709551615 2 = none ∧
      ¬ ∃ bits, window p.evaluate #[.whole 1] 18446744073709551615 2 = some bits ∧
        ∀ i, bits.toNat.testBit i = (decide (i < 2) &&
          #[Json.whole 1][18446744073709551615 + i]?.any p.evaluate) := by
  refine ⟨⟨"this == 1", ⟨⟨[]⟩, "Integer", [], ⟨"Integer", .scalar .integer⟩⟩,
    .leaf ⟨.eq, .integer 1, 5⟩, .leaf ⟨.eq, .integer 1⟩⟩, by cbv, rfl, ?_⟩
  rintro ⟨bits, read, -⟩
  cases read

/-! ### All blocks together -/

/-- What is read off a mask are the places of its bits. -/
theorem exists_foldlM_addIndex {start : UInt64} (bits : UInt64) {n : Nat}
    (inside : start.toNat + n ≤ 2 ^ 64) (found : Array Nat) :
    ∃ all, (List.range n).foldlM (addIndex bits start) found = some all ∧
      all.toList = found.toList ++ ((List.range n).filter (isSet bits)).map (start.toNat + ·) := by
  induction n with
  | zero => exact ⟨found, rfl, by simp⟩
  | succ n ih =>
    obtain ⟨all, read, places⟩ := ih (by omega)
    rw [foldlM_range_succ, read, List.range_succ, List.filter_append, List.map_append,
      ← List.append_assoc, ← places]
    show ∃ all', addIndex bits start all n = some all' ∧ _
    by_cases set : isSet bits n = true
    · obtain ⟨index, place⟩ := exists_indexAt? start (show start.toNat + n < 2 ^ 64 by omega)
      refine ⟨all.push index.toNat, ?_, ?_⟩
      · rw [addIndex, if_pos set, place]
        rfl
      · rw [indexAt?_eq_some_iff.1 place]
        simp [set]
    · refine ⟨all, ?_, by simp [set]⟩
      rw [addIndex, if_neg set]
      rfl

/-- A block covers the next places up to its own end, and its mask has those that pass. -/
theorem exists_block (start : UInt64) {count : Nat} (few : count ≤ 64)
    (inside : start.toNat + count ≤ 2 ^ 64) (found : Array Nat) :
    ∃ bits all, window test facts start count.toUInt64 = some bits ∧
      (List.range count).foldlM (addIndex bits start) found = some all ∧
      all.toList =
        found.toList ++ (List.range' start.toNat count).filter fun i => facts[i]?.any test := by
  have word : count.toUInt64.toNat = count := by
    rw [Nat.toUInt64_eq, UInt64.toNat_ofNat']
    omega
  have least : min count.toUInt64.toNat 64 = count := by omega
  obtain ⟨bits, read, each⟩ := exists_window test facts start count.toUInt64 (by omega)
  obtain ⟨all, collected, places⟩ := exists_foldlM_addIndex bits inside found
  refine ⟨bits, all, read, collected, ?_⟩
  have passing : (List.range count).filter (isSet bits) =
      (List.range count).filter fun i => facts[start.toNat + i]?.any test := by
    refine List.filter_congr fun i mem => ?_
    have before : i < count := List.mem_range.1 mem
    rw [isSet_eq_testBit bits (Nat.lt_of_lt_of_le before few), each, least]
    simp [before]
  rw [places, passing, List.range'_eq_map_range, List.filter_map]
  rfl

/-- From any block on, the indices found are those of the facts that pass. -/
theorem exists_matchingFrom (size : facts.size < 2 ^ 64) (start : UInt64) (found : Array Nat) :
    ∃ all, matchingFrom test facts start found = some all ∧
      all.toList = found.toList ++
        (List.range' start.toNat (facts.size - start.toNat)).filter fun i => facts[i]?.any test := by
  fun_induction matchingFrom test facts start found with
  | case1 start found more count past =>
    have within : count ≤ facts.size - start.toNat := Nat.min_le_left _ _
    rw [indexAt?_eq_none_iff, UInt64.size] at past
    omega
  | case2 start found more count next stop ih =>
    have few : count ≤ 64 := Nat.min_le_right _ _
    have within : count ≤ facts.size - start.toNat := Nat.min_le_left _ _
    obtain ⟨bits, block, read, collected, places⟩ :=
      exists_block test facts start few (by omega) found
    obtain ⟨all, later, others⟩ := ih block
    refine ⟨all, ?_, ?_⟩
    · rw [read]
      show ((List.range count).foldlM (addIndex bits start) found >>= _) = _
      rw [collected]
      exact later
    · -- A block covers the next places up to its own end; the induction has those from there on.
      have split : List.range' start.toNat (facts.size - start.toNat) =
          List.range' start.toNat count ++
            List.range' (start.toNat + count) (facts.size - (start.toNat + count)) := by
        rw [List.range'_append_1]
        congr 1
        omega
      rw [others, places, indexAt?_eq_some_iff.1 stop, split, List.filter_append, List.append_assoc]
  | case3 start found none =>
    refine ⟨found, rfl, ?_⟩
    simp [Nat.sub_eq_zero_of_le (Nat.not_lt.1 none)]

/-- The search ends at a machine word that is not below the number of facts. -/
theorem size_lt_of_matchingFrom {start : UInt64} {found all : Array Nat}
    (read : matchingFrom test facts start found = some all) : facts.size < 2 ^ 64 := by
  fun_induction matchingFrom test facts start found with
  | case1 => cases read
  | case2 start found more count next stop ih =>
    obtain ⟨bits, -, read⟩ := Option.bind_eq_some_iff.1 read
    obtain ⟨block, -, read⟩ := Option.bind_eq_some_iff.1 read
    exact ih block read
  | case3 start found none => exact Nat.lt_of_le_of_lt (Nat.not_lt.1 none) start.toNat_lt

theorem matchingIndices_eq (size : facts.size < 2 ^ 64) :
    matchingIndices test facts =
      some ((List.range facts.size).filter fun i => facts[i]?.any test) := by
  obtain ⟨all, read, places⟩ := exists_matchingFrom test facts size 0 #[]
  rw [matchingIndices, read, Option.map_some, places, List.range_eq_range']
  rfl

theorem exists_matchingIndices_iff :
    (∃ indices, matchingIndices test facts = some indices) ↔ facts.size < 2 ^ 64 := by
  constructor
  · rintro ⟨indices, read⟩
    obtain ⟨all, read, -⟩ := Option.map_eq_some_iff.1 read
    exact size_lt_of_matchingFrom test facts read
  · intro size
    exact ⟨_, matchingIndices_eq test facts size⟩

variable {test facts} {indices : List Nat}

theorem pairwise_of_matchingIndices (read : matchingIndices test facts = some indices) :
    indices.Pairwise (· < ·) := by
  have size := (exists_matchingIndices_iff test facts).1 ⟨indices, read⟩
  rw [matchingIndices_eq test facts size, Option.some.injEq] at read
  rw [← read]
  exact List.pairwise_lt_range.filter _

theorem mem_iff_of_matchingIndices (read : matchingIndices test facts = some indices) {i : Nat} :
    i ∈ indices ↔ ∃ fact, facts[i]? = some fact ∧ test fact = true := by
  have size := (exists_matchingIndices_iff test facts).1 ⟨indices, read⟩
  rw [matchingIndices_eq test facts size, Option.some.injEq] at read
  rw [← read, List.mem_filter, List.mem_range, Option.any_eq_true]
  constructor
  · exact And.right
  · rintro ⟨fact, found, passes⟩
    obtain ⟨inside, -⟩ := Array.getElem?_eq_some_iff.1 found
    exact ⟨inside, fact, found, passes⟩

/-- Facts whose number is a machine word, as that of facts in memory always is, have their indices
found: those of the facts that pass, in increasing order and without any other. They are read off the
windows of the blocks one after another, of which none shows a bit past its block; from any block on,
those found are the ones that were found before and those of the facts from there to the last one
that pass. -/
theorem matchingIndices_exact (test : α → Bool) (facts : Array α) :
    ((∃ indices, matchingIndices test facts = some indices) ↔ facts.size < 2 ^ 64) ∧
    (∀ indices, matchingIndices test facts = some indices → indices.Pairwise (· < ·) ∧
      ∀ i, i ∈ indices ↔ ∃ fact, facts[i]? = some fact ∧ test fact = true) ∧
    (∀ start count bits, window test facts start count = some bits →
      ∀ i, count.toNat ≤ i → bits.toNat.testBit i = false) ∧
    (facts.size < 2 ^ 64 → ∀ start found, ∃ all, matchingFrom test facts start found = some all ∧
      all.toList = found.toList ++ (List.range' start.toNat (facts.size - start.toNat)).filter
        fun i => facts[i]?.any test) := by
  refine ⟨exists_matchingIndices_iff test facts, fun indices read => ?_, ?_, fun size =>
    exists_matchingFrom test facts size⟩
  · exact ⟨pairwise_of_matchingIndices read, fun i => mem_iff_of_matchingIndices read⟩
  · intro start count bits read i past
    have outside : ¬ i < min count.toNat 64 := by omega
    simp [testBit_window read, outside]

/-- Facts at the ends of blocks are found with their own block, and those of the last, short block
with the third. -/
theorem matchingIndices_exact_ends :
    let facts := Array.range 130
    let test (i : Nat) := [0, 63, 64, 127, 129].contains i
    facts.size < 2 ^ 64 ∧ matchingIndices test facts = some [0, 63, 64, 127, 129] ∧
      ∃ all, matchingFrom test facts 64 #[0, 63] = some all ∧
        all.toList = [0, 63, 64, 127, 129] := by
  intro facts test
  have size : facts.size < 2 ^ 64 := by
    rw [Array.size_range]
    decide
  obtain ⟨exists_iff, exact, -, searched⟩ := matchingIndices_exact test facts
  obtain ⟨indices, read⟩ := exists_iff.2 size
  obtain ⟨ordered, satisfied⟩ := exact indices read
  refine ⟨size, ?_, ?_⟩
  · rw [read, Option.some.injEq]
    refine ordered.eq_of_mem_iff (by decide) fun i => ?_
    simp only [satisfied, facts, test, Array.getElem?_range, Option.ite_none_right_eq_some,
      Option.some.injEq, List.contains_eq_mem, decide_eq_true_eq]
    constructor
    · rintro ⟨_, ⟨-, rfl⟩, mem⟩
      exact mem
    · intro mem
      refine ⟨i, ⟨?_, rfl⟩, mem⟩
      simp at mem
      omega
  · obtain ⟨all, read, places⟩ := searched size 64 #[0, 63]
    exact ⟨all, read, places.trans (by decide +kernel)⟩

end HalfBinary.Batch

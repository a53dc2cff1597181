import EwfImage.Aff4.DiskMaps
import EwfImage.Aff4.VerifyAll

/-!
# The arithmetic of maps

Loading a map bounds the end of a range and the end of its part of the target. Those who use
the map compute the address of a position in different orders: reading a resource adds what the
position is behind the start of the range, and the others add the position first. Here every
turn of their loops checks its sums and differences; without overflow checks they wrap.

The main result is `computable_iff`, about every map that loading accepts and every position of
it: no sum or difference of the five loops overflows exactly when for each range the start of
its part of the target and the end of the range stay in the 64-bit range together.
`addable_of_interval` is the loop that needs the room, with the failing map beside it. What the
loops compute under the condition is the subject of the modules that model them.
-/

namespace EwfImage.Aff4

open Fallible Queries Std Word

/-! ## The turns with checked sums -/

section Turns

variable (map : ResourceMap) (size : Nat)

/-- `map_interval`, which adds the position before it takes the start of the range away. -/
def checkedInterval (position : Nat) : Option (String × Nat × Nat) :=
  match map.ranges.find? (position < ·.stop) with
  | some range =>
    if range.start ≤ position then do
      let sum ← checkedAdd range.offset position
      let address ← checkedSub sum range.start
      return (range.target, address, range.stop)
    else some (map.gap, position, range.start)
  | none => some (map.gap, position, size)

/-- The target of a position in `read_inner_impl`. -/
def checkedTarget (position : Nat) : Option (String × Nat × Nat) :=
  match map.ranges.find? (position < ·.stop) with
  | some range =>
    if range.start ≤ position then do
      let within ← checkedSub position range.start
      let address ← checkedAdd range.offset within
      return (range.target, address, range.stop)
    else some (map.gap, position, range.start)
  | none => some (map.gap, position, size)

/-- A turn of a loop over the targets of a read: what it reads, and how much is done behind it. -/
def readTurn (target : Nat → Option (String × Nat × Nat)) (offset length done : Nat) :
    Option ((String × Nat × Nat) × Nat) := do
  let position ← checkedAdd offset done
  let (target, address, stop) ← target position
  let rest ← checkedSub stop position
  let missing ← checkedSub length done
  let take := min rest missing
  let done ← checkedAdd done take
  return ((target, address, take), done)

def readInnerTurn (offset length done : Nat) : Option ((String × Nat × Nat) × Nat) :=
  readTurn (checkedTarget map size) offset length done

def readDiskTurn (offset length done : Nat) : Option ((String × Nat × Nat) × Nat) :=
  readTurn (checkedInterval map size) offset length done

/-- A turn of `equivalent_disk_maps`: the next position, unless the maps differ. -/
def equivalentTurn (other : ResourceMap) (position : Nat) : Option (Option Nat) := do
  let a ← checkedInterval map size position
  let b ← checkedInterval other size position
  return if a.1 ≠ b.1 ∨ (¬ isSymbolic a.1 ∧ a.2.1 ≠ b.2.1) then none else some (min a.2.2 b.2.2)

def ByteCoverage.checkedSum (count child : ByteCoverage) : Option ByteCoverage := do
  let stored ← checkedAdd count.stored child.stored
  let described ← checkedAdd count.described child.described
  let gapFilled ← checkedAdd count.gapFilled child.gapFilled
  return ⟨stored, described, gapFilled⟩

/-- A turn of the loop of `byte_coverage`, with what covers the targets. -/
def coverageTurn (cover : String → Nat → Nat → ByteCoverage) (stop position : Nat)
    (count : ByteCoverage) : Option (Nat × ByteCoverage) :=
  match map.ranges.find? (position < ·.stop) with
  | some range =>
    if range.start ≤ position then do
      let rest ← checkedSub range.stop position
      let missing ← checkedSub stop position
      let take := min rest missing
      let sum ← checkedAdd range.offset position
      let address ← checkedSub sum range.start
      let count ← count.checkedSum (cover range.target address take)
      let position ← checkedAdd position take
      return (position, count)
    else do
      let take ← checkedSub (min range.start stop) position
      let count ← count.checkedSum { gapFilled := take }
      let position ← checkedAdd position take
      return (position, count)
  | none => do
    let take ← checkedSub stop position
    let count ← count.checkedSum { gapFilled := take }
    let position ← checkedAdd position take
    return (position, count)

end Turns

/-- The bytes that are covered in one way or another. -/
def ByteCoverage.total (count : ByteCoverage) : Nat :=
  count.stored + count.described + count.gapFilled

/-- No sum or difference that is computed from the ranges at the position leaves the 64-bit
range. -/
structure Computable (map : ResourceMap) (size position : Nat) : Prop where
  readInner : ∀ offset length done, offset + done = position → done < length →
    offset + length ≤ size → (readInnerTurn map size offset length done).isSome
  byteCoverage : ∀ cover offset stop count, (∀ target address take,
      (cover target address take : ByteCoverage).total = take) →
    offset ≤ position → position < stop → stop < u64Limit → count.total = position - offset →
    (coverageTurn map cover stop position count).isSome
  mapInterval : (checkedInterval map size position).isSome
  equivalentDiskMaps : ∀ other, (checkedInterval other size position).isSome →
    (equivalentTurn map size other position).isSome ∧
      (equivalentTurn other size map position).isSome
  readDisk : ∀ offset length done, offset + done = position → done < length →
    offset + length ≤ size → (readDiskTurn map size offset length done).isSome

/-! ## The bytes that are covered -/

namespace Container

variable {c : Container}

theorem total_coverageLoop {cover : String → Nat → Nat → c.Reading ByteCoverage}
    (hcover : ∀ target address take child,
      (cover target address take).eval c.answer = .ok child → child.total = take)
    {map : ResourceMap} {stop fuel position : Nat} {count result : ByteCoverage}
    (hfuel : stop - position ≤ fuel)
    (h : (c.coverageLoop cover map stop fuel position count).eval c.answer = .ok result) :
    result.total = count.total + (stop - position) := by
  induction fuel generalizing position count with
  | zero =>
    cases h
    omega
  | succ fuel ih =>
    unfold coverageLoop at h
    by_cases hin : position < stop
    · rw [if_pos hin] at h
      cases hfind : map.ranges.find? (position < ·.stop) with
      | none =>
        rw [hfind] at h
        have hrest := ih (by omega) h
        unfold ByteCoverage.total at hrest ⊢
        dsimp only at hrest
        omega
      | some range =>
        have hlast := List.find?_some hfind
        rw [decide_eq_true_eq] at hlast
        rw [hfind] at h
        dsimp only at h
        by_cases hfirst : range.start ≤ position
        · rw [if_pos hfirst, Program.eval_bind, bind_eq_ok] at h
          obtain ⟨child, hchild, h⟩ := h
          have htotal := hcover _ _ _ _ hchild
          have hrest := ih (by omega) h
          unfold ByteCoverage.total at hrest htotal ⊢
          dsimp only at hrest
          omega
        · rw [if_neg hfirst] at h
          have hrest := ih (by omega) h
          unfold ByteCoverage.total at hrest ⊢
          dsimp only at hrest
          omega
    · rw [if_neg hin] at h
      cases h
      omega

/-- The coverage of a range accounts for every byte of it. -/
theorem total_byteCoverage {depth : Nat} {visited : List String} {id : String}
    {offset length : Nat} {count : ByteCoverage}
    (h : (c.byteCoverage depth visited id offset length).eval c.answer = .ok count) :
    count.total = length := by
  induction depth generalizing visited id offset length count with
  | zero => cases h
  | succ depth ih =>
    unfold byteCoverage at h
    rw [Program.eval_bind, bind_eq_ok] at h
    obtain ⟨visited', -, h⟩ := h
    by_cases hsymbolic : id = ns ++ "Zero" ∨ startsWith id (ns ++ "SymbolicStream")
    · rw [if_pos hsymbolic] at h
      cases h
      exact Nat.zero_add _
    · rw [if_neg hsymbolic, Program.eval_bind, bind_eq_ok] at h
      obtain ⟨inline, -, h⟩ := h
      by_cases hinline : inline.isSome = true
      · rw [if_pos hinline] at h
        cases h
        exact Nat.zero_add _
      · rw [if_neg hinline, Program.eval_bind, bind_eq_ok] at h
        obtain ⟨target, -, h⟩ := h
        cases target with
        | some target => exact ih h
        | none =>
          dsimp only at h
          by_cases hmap : c.hasType id "Map" = true
          · rw [if_pos hmap, Program.eval_bind, bind_eq_ok] at h
            obtain ⟨map, -, h⟩ := h
            rw [Program.eval_bind, bind_eq_ok] at h
            obtain ⟨stop, hstop, h⟩ := h
            rw [Program.eval_lift, okOr_eq_ok, checkedAdd_eq_some] at hstop
            obtain ⟨-, rfl⟩ := hstop
            have htotal := total_coverageLoop (fun _ _ _ _ hchild => ih hchild) (by omega) h
            rw [htotal, Nat.add_sub_cancel_left]
            exact Nat.zero_add _
          · rw [if_neg hmap] at h
            cases h
            rfl

end Container

/-! ## The ranges whose addresses can be computed -/

section Ranges

variable {map : ResourceMap} {size position : Nat}

/-- Adding a position of the range before taking its start away does not overflow. -/
def Addable (range : MapRange) : Prop := range.offset + range.stop ≤ u64Limit

theorem checkedInterval_of_addable (h : ∀ range ∈ map.ranges, Addable range) :
    checkedInterval map size position = some (VolumeSet.mapInterval map position size) := by
  unfold checkedInterval VolumeSet.mapInterval
  cases hfind : map.ranges.find? (position < ·.stop) with
  | none => rfl
  | some range =>
    have hlast := List.find?_some hfind
    rw [decide_eq_true_eq] at hlast
    have haddable := h range (List.mem_of_find?_eq_some hfind)
    unfold Addable at haddable
    dsimp only
    by_cases hfirst : range.start ≤ position
    · rw [if_pos hfirst, if_pos hfirst, checkedAdd_of_lt (by omega)]
      change (checkedSub (range.offset + position) range.start >>= _) = _
      rw [checkedSub, if_pos (by omega)]
      rfl
    · rw [if_neg hfirst, if_neg hfirst]

theorem checkedTarget_eq (h : Container.OrderedRanges size map.ranges) :
    checkedTarget map size position = some (VolumeSet.mapInterval map position size) := by
  unfold checkedTarget VolumeSet.mapInterval
  cases hfind : map.ranges.find? (position < ·.stop) with
  | none => rfl
  | some range =>
    have hmem := List.mem_of_find?_eq_some hfind
    have hlast := List.find?_some hfind
    rw [decide_eq_true_eq] at hlast
    have htarget := h.target range hmem
    dsimp only
    by_cases hfirst : range.start ≤ position
    · rw [if_pos hfirst, if_pos hfirst, checkedSub, if_pos hfirst]
      change (checkedAdd range.offset (position - range.start) >>= _) = _
      rw [checkedAdd_of_lt (by omega), Nat.add_sub_assoc hfirst]
      rfl
    · rw [if_neg hfirst, if_neg hfirst]

theorem readTurn_isSome {target : Nat → Option (String × Nat × Nat)} {offset length done : Nat}
    (hsize : size < u64Limit) (hdone : done < length) (hfits : offset + length ≤ size)
    (htarget : ∃ found, target (offset + done) = some found ∧ offset + done < found.2.2) :
    (readTurn target offset length done).isSome := by
  obtain ⟨⟨found, address, stop⟩, htarget, hstop⟩ := htarget
  dsimp only at hstop
  unfold readTurn
  rw [checkedAdd_of_lt (by omega)]
  change (target (offset + done) >>= _).isSome
  rw [htarget]
  change (checkedSub stop (offset + done) >>= _).isSome
  rw [checkedSub, if_pos (by omega)]
  change (checkedSub length done >>= _).isSome
  rw [checkedSub, if_pos (by omega)]
  change (checkedAdd done (min (stop - (offset + done)) (length - done)) >>= _).isSome
  rw [checkedAdd_of_lt (by omega)]
  rfl

theorem ByteCoverage.checkedSum_isSome {count child : ByteCoverage}
    (h : count.total + child.total < u64Limit) : ∃ sum, count.checkedSum child = some sum := by
  unfold ByteCoverage.total at h
  refine ⟨⟨count.stored + child.stored, count.described + child.described,
    count.gapFilled + child.gapFilled⟩, ?_⟩
  unfold ByteCoverage.checkedSum
  rw [checkedAdd_of_lt (by omega), checkedAdd_of_lt (by omega), checkedAdd_of_lt (by omega)]
  rfl

theorem coverageTurn_isSome (h : ∀ range ∈ map.ranges, Addable range)
    {cover : String → Nat → Nat → ByteCoverage} {stop : Nat} {count : ByteCoverage}
    (hcover : ∀ target address take, (cover target address take).total = take)
    (hin : position < stop) (hstop : stop < u64Limit) (hcount : count.total ≤ position) :
    (coverageTurn map cover stop position count).isSome := by
  have hgap : ∀ take, take ≤ stop - position → ∃ sum,
      count.checkedSum { gapFilled := take } = some sum := by
    intro take htake
    refine ByteCoverage.checkedSum_isSome ?_
    have htotal : ({ gapFilled := take } : ByteCoverage).total = take := Nat.zero_add _
    omega
  unfold coverageTurn
  cases hfind : map.ranges.find? (position < ·.stop) with
  | none =>
    obtain ⟨sum, hsum⟩ := hgap (stop - position) (Nat.le_refl _)
    dsimp only
    rw [checkedSub, if_pos (by omega)]
    change (count.checkedSum { gapFilled := stop - position } >>= _).isSome
    rw [hsum]
    change (checkedAdd position (stop - position) >>= _).isSome
    rw [checkedAdd_of_lt (by omega)]
    rfl
  | some range =>
    have hlast := List.find?_some hfind
    rw [decide_eq_true_eq] at hlast
    have haddable := h range (List.mem_of_find?_eq_some hfind)
    unfold Addable at haddable
    dsimp only
    by_cases hfirst : range.start ≤ position
    · have htotal := hcover range.target (range.offset + position - range.start)
        (min (range.stop - position) (stop - position))
      obtain ⟨sum, hsum⟩ := @ByteCoverage.checkedSum_isSome count
        (cover range.target (range.offset + position - range.start)
          (min (range.stop - position) (stop - position))) (by omega)
      rw [if_pos hfirst, checkedSub, if_pos (by omega)]
      change (checkedSub stop position >>= _).isSome
      rw [checkedSub, if_pos (by omega)]
      change (checkedAdd range.offset position >>= _).isSome
      rw [checkedAdd_of_lt (by omega)]
      change (checkedSub (range.offset + position) range.start >>= _).isSome
      rw [checkedSub, if_pos (by omega)]
      change (count.checkedSum _ >>= _).isSome
      rw [hsum]
      change (checkedAdd position (min (range.stop - position) (stop - position)) >>= _).isSome
      rw [checkedAdd_of_lt (by omega)]
      rfl
    · obtain ⟨sum, hsum⟩ := hgap (min range.start stop - position) (by omega)
      rw [if_neg hfirst, checkedSub, if_pos (by omega)]
      change (count.checkedSum { gapFilled := min range.start stop - position } >>= _).isSome
      rw [hsum]
      change (checkedAdd position (min range.start stop - position) >>= _).isSome
      rw [checkedAdd_of_lt (by omega)]
      rfl

theorem computable_of_addable (hranges : Container.OrderedRanges size map.ranges)
    (hsize : size < u64Limit) (h : ∀ range ∈ map.ranges, Addable range) (hin : position < size) :
    Computable map size position where
  readInner := fun offset length done hposition hdone hfits => by
    refine readTurn_isSome hsize hdone hfits ⟨_, checkedTarget_eq hranges, ?_⟩
    exact VolumeSet.lt_of_mapInterval map (by omega)
  byteCoverage := fun cover offset stop count hcover hoffset hstop hlimit hcount =>
    coverageTurn_isSome h hcover hstop hlimit (by omega)
  mapInterval := by
    rw [checkedInterval_of_addable h]
    rfl
  equivalentDiskMaps := fun other hother => by
    obtain ⟨b, hb⟩ := Option.isSome_iff_exists.mp hother
    unfold equivalentTurn
    rw [checkedInterval_of_addable h, hb]
    exact ⟨rfl, rfl⟩
  readDisk := fun offset length done hposition hdone hfits => by
    refine readTurn_isSome hsize hdone hfits ⟨_, checkedInterval_of_addable h, ?_⟩
    exact VolumeSet.lt_of_mapInterval map (by omega)

/-- At the last position of a range, the sum of `map_interval` needs the room. -/
theorem addable_of_interval (hranges : Container.OrderedRanges size map.ranges) {range : MapRange}
    (hmem : range ∈ map.ranges) (h : (checkedInterval map size (range.stop - 1)).isSome) :
    Addable range := by
  have hnonempty := hranges.nonempty range hmem
  have hfound : map.ranges.find? (range.stop - 1 < ·.stop) = some range :=
    VolumeSet.find?_of_holds hranges hmem (by omega) (by omega)
  unfold checkedInterval at h
  rw [hfound] at h
  dsimp only at h
  rw [if_pos (by omega)] at h
  by_contra hlarge
  unfold Addable at hlarge
  rw [checkedAdd, if_neg (by omega)] at h
  cases h

end Ranges

/-- The sums and differences of every position of a loaded map stay in the 64-bit range if and
only if the start of the part of the target and the end of the range do together. -/
theorem computable_iff {c : Container} {id : String} {map : ResourceMap} {size : Nat}
    (hmap : c.map id = .ok map) (hsize : c.number id "size" = .ok size) :
    (∀ position, position < size → Computable map size position) ↔
      ∀ range ∈ map.ranges, range.offset + range.stop ≤ u64Limit := by
  obtain ⟨declared, hdeclared, hranges⟩ := Container.map_spec hmap
  have hsame : declared = size := Except.ok.inj (hdeclared.symm.trans hsize)
  subst hsame
  constructor
  · intro h range hmem
    have hstop := hranges.stop_le range hmem
    have hnonempty := hranges.nonempty range hmem
    exact addable_of_interval hranges hmem (h (range.stop - 1) (by omega)).mapInterval
  · exact fun h position hin => computable_of_addable hranges (Container.number_lt hsize) h hin

/-! ## A range far behind in its target -/

/-- Five zeros at the position 100, taken from close to the end of the addresses. -/
def farVolume : Container := zeroVolume "aff4://v" "200"
  [100, 0, 0, 0, 0, 0, 0, 0, 5, 0, 0, 0, 0, 0, 0, 0, 246, 255, 255, 255, 255, 255, 255, 255,
    0, 0, 0, 0]

def farMap : ResourceMap := ⟨[⟨100, 105, u64Limit - 10, ns ++ "Zero"⟩], ns ++ "Zero"⟩

theorem map_farVolume : farVolume.map "aff4://m" = .ok farMap := by decide

theorem number_farVolume : farVolume.number "aff4://m" "size" = .ok 200 := by decide

theorem computable_iff_farVolume :
    (∀ position, position < 200 → Computable farMap 200 position) ↔
      ∀ range ∈ farMap.ranges, range.offset + range.stop ≤ u64Limit :=
  computable_iff map_farVolume number_farVolume

theorem not_computable : ¬ ∀ (c : Container) (id : String) (map : ResourceMap) (size : Nat),
    c.map id = .ok map → c.number id "size" = .ok size →
    ∀ position, position < size → Computable map size position := by
  intro hall
  have hfar := (hall _ _ _ _ map_farVolume number_farVolume 100 (by decide)).mapInterval
  exact absurd hfar (by decide)

end EwfImage.Aff4

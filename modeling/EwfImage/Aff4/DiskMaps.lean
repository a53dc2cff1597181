import EwfImage.Aff4.DiskPages
import EwfImage.Aff4.Open

/-!
# Comparing the maps of disks

Two volumes of a set may describe the same disk by maps that split it differently. The
comparison walks over both maps at once and goes on behind the nearer end, since up to there
neither changes its target.

The main result is `equivalentDiskMaps_iff`: whenever both maps can be resolved, the comparison
has an answer, the answer is whether both disks have one size and resolve every position alike,
and it is an equivalence relation under which a map can stand in for another.
`equivalentLoop_iff` is the loop, by induction on what is left of the disk; `sameTarget_up_to`
is why it may go on to the nearer end. The maps are any maps that a volume of the set accepts.
The sums of addresses wrap as in a release build; `Aff4.MapArithmetic` says when they do not.
-/

namespace EwfImage.Aff4

open Fallible LruCache Queries Std Triples Word

namespace VolumeSet

/-! ## What a map resolves to -/

/-- The target of a position and the address there: of the range that holds it, or of the gap. -/
inductive Resolves (map : ResourceMap) (position : Nat) : String → Nat → Prop
  | range {range : MapRange} (mem : range ∈ map.ranges) (first : range.start ≤ position)
      (last : position < range.stop) :
      Resolves map position range.target (range.offset + (position - range.start))
  | gap (outside : ∀ range ∈ map.ranges, ¬ (range.start ≤ position ∧ position < range.stop)) :
      Resolves map position map.gap position

/-- Both maps resolve the position to the same target and, unless that is symbolic, to the same
address. -/
def SameTarget (left right : ResourceMap) (position : Nat) : Prop :=
  ∃ target address address', Resolves left position target address ∧
    Resolves right position target address' ∧ (isSymbolic target = false → address = address')

section Resolving

variable {map left right : ResourceMap} {size bound position : Nat}

theorem find?_of_holds {ranges : List MapRange} (h : Container.OrderedRanges bound ranges)
    {range : MapRange} (hrange : range ∈ ranges) (hfirst : range.start ≤ position)
    (hlast : position < range.stop) : ranges.find? (position < ·.stop) = some range := by
  obtain ⟨front, back, hranges⟩ := List.append_of_mem hrange
  have hordered := h.ordered
  rw [hranges, List.pairwise_append] at hordered
  refine List.find?_eq_some_iff_append.mpr ⟨decide_eq_true hlast, front, back, hranges, ?_⟩
  intro other hother
  have hle := hordered.2.2 other hother range List.mem_cons_self
  simp only [Bool.not_eq_true', decide_eq_false_iff_not]
  omega

theorem mapInterval_of_holds (h : Container.OrderedRanges bound map.ranges) {range : MapRange}
    (hrange : range ∈ map.ranges) (hfirst : range.start ≤ position) (hlast : position < range.stop) :
    mapInterval map position size =
      (range.target, range.offset + (position - range.start), range.stop) := by
  unfold mapInterval
  rw [find?_of_holds h hrange hfirst hlast]
  dsimp only
  rw [if_pos hfirst, Nat.add_sub_assoc hfirst]

variable (size) in
theorem mapInterval_of_outside
    (h : ∀ range ∈ map.ranges, ¬ (range.start ≤ position ∧ position < range.stop)) :
    ∃ stop, mapInterval map position size = (map.gap, position, stop) := by
  unfold mapInterval
  cases hfind : map.ranges.find? (position < ·.stop) with
  | none => exact ⟨size, rfl⟩
  | some range =>
    have hlast := List.find?_some hfind
    rw [decide_eq_true_eq] at hlast
    have hfirst : ¬ range.start ≤ position := fun hfirst =>
      h range (List.mem_of_find?_eq_some hfind) ⟨hfirst, hlast⟩
    dsimp only
    rw [if_neg hfirst]
    exact ⟨range.start, rfl⟩

variable (size) in
/-- A position resolves to what the interval of the position says. -/
theorem resolves_iff (h : Container.OrderedRanges bound map.ranges) {target : String}
    {address : Nat} : Resolves map position target address ↔
      target = (mapInterval map position size).1 ∧
        address = (mapInterval map position size).2.1 := by
  constructor
  · intro hresolves
    cases hresolves with
    | range hmem hfirst hlast =>
      rw [mapInterval_of_holds h hmem hfirst hlast]
      exact ⟨rfl, rfl⟩
    | gap houtside =>
      obtain ⟨stop, hinterval⟩ := mapInterval_of_outside size houtside
      rw [hinterval]
      exact ⟨rfl, rfl⟩
  · rintro ⟨rfl, rfl⟩
    by_cases houtside : ∀ range ∈ map.ranges, ¬ (range.start ≤ position ∧ position < range.stop)
    · obtain ⟨stop, hinterval⟩ := mapInterval_of_outside size houtside
      rw [hinterval]
      exact .gap houtside
    · simp only [not_forall, not_not] at houtside
      obtain ⟨range, hmem, hfirst, hlast⟩ := houtside
      rw [mapInterval_of_holds h hmem hfirst hlast]
      exact .range hmem hfirst hlast

variable (size) in
theorem sameTarget_iff (hleft : Container.OrderedRanges bound left.ranges)
    (hright : Container.OrderedRanges bound right.ranges) :
    SameTarget left right position ↔
      (mapInterval left position size).1 = (mapInterval right position size).1 ∧
        (isSymbolic (mapInterval left position size).1 = false →
          (mapInterval left position size).2.1 = (mapInterval right position size).2.1) := by
  constructor
  · rintro ⟨target, address, address', hl, hr, hsame⟩
    obtain ⟨rfl, rfl⟩ := (resolves_iff size hleft).mp hl
    obtain ⟨htarget, rfl⟩ := (resolves_iff size hright).mp hr
    exact ⟨htarget, hsame⟩
  · rintro ⟨htarget, hsame⟩
    exact ⟨_, _, _, (resolves_iff size hleft).mpr ⟨rfl, rfl⟩, (resolves_iff size hright).mpr ⟨htarget, rfl⟩,
      hsame⟩

end Resolving

/-! ## The walk over both maps -/

/-- `map_interval` with the sums of a build without overflow checks. -/
def wrappingInterval (map : ResourceMap) (position size : Nat) : String × Nat × Nat :=
  match map.ranges.find? (position < ·.stop) with
  | some range =>
    if range.start ≤ position then
      (range.target, wrappingSub (wrappingAdd range.offset position) range.start, range.stop)
    else (map.gap, position, range.start)
  | none => (map.gap, position, size)

theorem lt_of_wrappingInterval (map : ResourceMap) {position size : Nat} (hin : position < size) :
    position < (wrappingInterval map position size).2.2 := by
  have hlt := lt_of_mapInterval map hin
  have hstop : (wrappingInterval map position size).2.2 = (mapInterval map position size).2.2 := by
    unfold wrappingInterval mapInterval
    cases map.ranges.find? (position < ·.stop) with
    | none => rfl
    | some range =>
      dsimp only
      by_cases hfirst : range.start ≤ position
      · rw [if_pos hfirst, if_pos hfirst]
      · rw [if_neg hfirst, if_neg hfirst]
  omega

/-- The sums of the ranges of a map wrap to the right addresses. -/
theorem wrappingInterval_eq {map : ResourceMap} {position size bound : Nat}
    (h : Container.OrderedRanges bound map.ranges) (hbound : bound < u64Limit) :
    wrappingInterval map position size = mapInterval map position size := by
  unfold wrappingInterval mapInterval
  cases hfind : map.ranges.find? (position < ·.stop) with
  | none => rfl
  | some range =>
    have hmem := List.mem_of_find?_eq_some hfind
    have hlast := List.find?_some hfind
    rw [decide_eq_true_eq] at hlast
    have hstop := h.stop_le range hmem
    have htarget := h.target range hmem
    dsimp only
    by_cases hfirst : range.start ≤ position
    · rw [if_pos hfirst, if_pos hfirst, wrappingSub_wrappingAdd hfirst (by omega) (by omega),
        Nat.add_sub_assoc hfirst]
    · rw [if_neg hfirst, if_neg hfirst]

/-- The loop of `equivalent_disk_maps`; every turn goes on behind the position. -/
def equivalentLoop (left right : ResourceMap) (size position : Nat) : Bool :=
  if _hin : position < size then
    let a := wrappingInterval left position size
    let b := wrappingInterval right position size
    if a.1 ≠ b.1 ∨ (¬ isSymbolic a.1 ∧ a.2.1 ≠ b.2.1) then false
    else equivalentLoop left right size (min a.2.2 b.2.2)
  else true
termination_by size - position
decreasing_by
  have hleft := lt_of_wrappingInterval left _hin
  have hright := lt_of_wrappingInterval right _hin
  omega

section Sameness

variable {left middle right : ResourceMap} {bound position : Nat}

theorem SameTarget.symm (h : SameTarget left right position) : SameTarget right left position := by
  obtain ⟨target, address, address', hl, hr, hsame⟩ := h
  exact ⟨target, address', address, hr, hl, fun hstored => (hsame hstored).symm⟩

theorem sameTarget_refl (h : Container.OrderedRanges bound left.ranges) :
    SameTarget left left position :=
  (sameTarget_iff bound h h).mpr ⟨rfl, fun _ => rfl⟩

theorem SameTarget.trans (hleft : Container.OrderedRanges bound left.ranges)
    (hmiddle : Container.OrderedRanges bound middle.ranges)
    (hright : Container.OrderedRanges bound right.ranges) (h : SameTarget left middle position)
    (h' : SameTarget middle right position) : SameTarget left right position := by
  rw [sameTarget_iff bound hleft hmiddle] at h
  rw [sameTarget_iff bound hmiddle hright] at h'
  rw [sameTarget_iff bound hleft hright]
  exact ⟨h.1.trans h'.1, fun hstored => (h.2 hstored).trans (h'.2 (h.1 ▸ hstored))⟩

end Sameness

section Walking

variable {left right : ResourceMap} {size bound position : Nat}

/-- What holds at a position holds up to the next one of the walk. -/
theorem sameTarget_up_to (hleft : Container.OrderedRanges bound left.ranges)
    (hright : Container.OrderedRanges bound right.ranges) {later : Nat} (hle : position ≤ later)
    (hlt : later < min (mapInterval left position size).2.2 (mapInterval right position size).2.2) :
    SameTarget left right later ↔ SameTarget left right position := by
  obtain ⟨i, rfl⟩ := Nat.exists_eq_add_of_le hle
  rw [sameTarget_iff size hleft hright, sameTarget_iff size hleft hright]
  rcases hl : mapInterval left position size with ⟨a, aOffset, aStop⟩
  rcases hr : mapInterval right position size with ⟨b, bOffset, bStop⟩
  rw [hl, hr] at hlt
  rw [mapInterval_add hleft.nonempty hl (Nat.lt_of_lt_of_le hlt (Nat.min_le_left _ _)),
    mapInterval_add hright.nonempty hr (Nat.lt_of_lt_of_le hlt (Nat.min_le_right _ _))]
  dsimp only
  rw [Nat.add_left_inj]

/-- The walk finds every position at which the maps differ. -/
theorem equivalentLoop_iff (hleft : Container.OrderedRanges bound left.ranges)
    (hright : Container.OrderedRanges bound right.ranges) (hbound : bound < u64Limit) :
    equivalentLoop left right size position = true ↔
      ∀ later, position ≤ later → later < size → SameTarget left right later := by
  induction hrest : size - position using Nat.strong_induction_on generalizing position with
  | _ rest ih =>
    unfold equivalentLoop
    by_cases hin : position < size
    · rw [dif_pos hin, wrappingInterval_eq hleft hbound, wrappingInterval_eq hright hbound]
      have hlt := lt_of_mapInterval left hin
      have hlt' := lt_of_mapInterval right hin
      have hsame : SameTarget left right position ↔ _ := sameTarget_iff size hleft hright
      dsimp only
      by_cases hdiffer : (mapInterval left position size).1 ≠ (mapInterval right position size).1 ∨
          (¬ isSymbolic (mapInterval left position size).1 ∧
            (mapInterval left position size).2.1 ≠ (mapInterval right position size).2.1)
      · rw [if_pos hdiffer]
        have hnot : ¬ SameTarget left right position := by
          rw [hsame]
          rintro ⟨htarget, haddress⟩
          rcases hdiffer with hne | ⟨hstored, hne⟩
          · exact hne htarget
          · exact hne (haddress (Bool.not_eq_true _ ▸ hstored))
        simp only [Bool.false_eq_true, false_iff]
        exact fun hall => hnot (hall position (Nat.le_refl _) hin)
      · rw [if_neg hdiffer, ih _ (by omega) rfl]
        have hhere : SameTarget left right position := by
          rw [hsame]
          rw [not_or, not_not, not_and, not_not] at hdiffer
          exact ⟨hdiffer.1, fun hstored => hdiffer.2 (by rw [hstored]; decide)⟩
        constructor
        · intro hall later hle hlater
          by_cases hnear : later < min (mapInterval left position size).2.2
              (mapInterval right position size).2.2
          · exact (sameTarget_up_to hleft hright hle hnear).mpr hhere
          · exact hall later (by omega) hlater
        · exact fun hall later hle hlater => hall later (by omega) hlater
    · rw [dif_neg hin]
      simp only [true_iff]
      exact fun later hle hlater => absurd hlater (by omega)

end Walking

/-! ## The comparison -/

variable (set : VolumeSet)

def equivalentDiskMaps (left right : set.Index) (id : String) : set.Reading Bool := do
  let (leftMap, size) ← set.imageMapIn left id
  let (rightMap, otherSize) ← set.imageMapIn right id
  if size ≠ otherSize then return false
  else return equivalentLoop leftMap rightMap size 0

/-- The comparison gives this answer, whatever the caches hold. -/
def Answers (lru : Interface) (left right : set.Index) (id : String) (answer : Bool) : Prop :=
  ∀ mapping s, Coherent lru mapping s →
    ∃ s', (set.equivalentDiskMaps left right id).run set.serve s = .ok answer s'

variable {lru : Interface} {set} {left middle right : set.Index} {id : String}
  {leftMap middleMap rightMap : ResourceMap} {size middleSize otherSize : Nat}

theorem orderedRanges_of_diskMap (h : set.diskMap left id = .ok (leftMap, size)) :
    Container.OrderedRanges size leftMap.ranges ∧ size < u64Limit := by
  simp only [diskMap, bind_eq_ok, pure_eq_ok] at h
  obtain ⟨target, -, map, hmap, size', hcheck, hfound⟩ := h
  cases hfound
  have hnumber := (checkMap_spec hcheck).number
  obtain ⟨declared, hdeclared, hranges⟩ := Container.map_spec hmap
  have hsame : declared = size := Except.ok.inj (hdeclared.symm.trans hnumber)
  exact ⟨hsame ▸ hranges, Container.number_lt hnumber⟩

theorem answers_iff {answer : Bool} : set.Answers lru left right id answer ↔
    (set.equivalentDiskMaps left right id).eval set.answer = .ok answer := by
  have hcomputes : ∀ mapping : Mapping set, Computes (Coherent lru mapping)
      ((set.equivalentDiskMaps left right id).run set.serve)
      ((set.equivalentDiskMaps left right id).eval set.answer) :=
    fun mapping => serves_answer.run _
  constructor
  · intro h
    have hnew : Coherent lru (fun _ _ => true) ({} : set.SetCaches lru) := coherent_new
    exact ((hcomputes _).ok_iff hnew).mp (h _ _ hnew)
  · exact fun h mapping s hs => ((hcomputes mapping).ok_iff hs).mpr h

theorem eval_equivalentDiskMaps (hleft : set.diskMap left id = .ok (leftMap, size))
    (hright : set.diskMap right id = .ok (rightMap, otherSize)) :
    (set.equivalentDiskMaps left right id).eval set.answer =
      .ok (decide (size = otherSize) && equivalentLoop leftMap rightMap size 0) := by
  change Program.eval set.answer (set.imageMapIn left id >>= _) = _
  rw [Program.eval_bind]
  change (set.diskMap left id >>= _) = _
  rw [hleft, ok_bind, Program.eval_bind]
  change (set.diskMap right id >>= _) = _
  rw [hright, ok_bind]
  dsimp only
  by_cases hsize : size = otherSize
  · rw [if_neg (not_not.mpr hsize), decide_eq_true hsize, Bool.true_and]
    rfl
  · rw [if_pos hsize, decide_eq_false hsize, Bool.false_and]
    rfl

/-- The maps describe disks of one size that have the same target everywhere. -/
def SameDisk (leftMap : ResourceMap) (size : Nat) (rightMap : ResourceMap) (otherSize : Nat) :
    Prop := size = otherSize ∧ ∀ position, position < size → SameTarget leftMap rightMap position

theorem SameDisk.symm (h : SameDisk leftMap size rightMap otherSize) :
    SameDisk rightMap otherSize leftMap size :=
  ⟨h.1.symm, fun position hin => (h.2 position (h.1.symm ▸ hin)).symm⟩

theorem answers_iff_sameDisk (hleft : set.diskMap left id = .ok (leftMap, size))
    (hright : set.diskMap right id = .ok (rightMap, otherSize)) {answer : Bool} :
    set.Answers lru left right id answer ↔
      (answer = true ↔ SameDisk leftMap size rightMap otherSize) := by
  obtain ⟨hleftRanges, hbound⟩ := orderedRanges_of_diskMap hleft
  obtain ⟨hrightRanges, -⟩ := orderedRanges_of_diskMap hright
  have hwalk : (decide (size = otherSize) && equivalentLoop leftMap rightMap size 0) = true ↔
      SameDisk leftMap size rightMap otherSize := by
    rw [Bool.and_eq_true, decide_eq_true_iff]
    refine and_congr_right fun hsize => ?_
    rw [equivalentLoop_iff hleftRanges (hsize ▸ hrightRanges) hbound]
    exact ⟨fun h position hin => h position (Nat.zero_le _) hin, fun h later _ hlt => h later hlt⟩
  rw [answers_iff, eval_equivalentDiskMaps hleft hright, Except.ok.injEq, ← hwalk]
  generalize (decide (size = otherSize) && equivalentLoop leftMap rightMap size 0) = found
  cases found <;> cases answer <;> simp

theorem sameDisk_refl (hleft : set.diskMap left id = .ok (leftMap, size)) :
    SameDisk leftMap size leftMap size :=
  ⟨rfl, fun _ _ => sameTarget_refl (orderedRanges_of_diskMap hleft).1⟩

theorem SameDisk.trans (hleft : set.diskMap left id = .ok (leftMap, size))
    (hmiddle : set.diskMap middle id = .ok (middleMap, middleSize))
    (hright : set.diskMap right id = .ok (rightMap, otherSize))
    (h : SameDisk leftMap size middleMap middleSize)
    (h' : SameDisk middleMap middleSize rightMap otherSize) :
    SameDisk leftMap size rightMap otherSize := by
  obtain ⟨rfl, hsame⟩ := h
  obtain ⟨rfl, hsame'⟩ := h'
  exact ⟨rfl, fun position hin => SameTarget.trans (orderedRanges_of_diskMap hleft).1
    (orderedRanges_of_diskMap hmiddle).1 (orderedRanges_of_diskMap hright).1 (hsame position hin)
    (hsame' position hin)⟩

/-- The comparison of two maps of a disk says whether they resolve alike, so that it is an
equivalence and maps that resolve alike stand in for one another. -/
theorem equivalentDiskMaps_iff (lru : Interface) (hleft : set.diskMap left id = .ok (leftMap, size))
    (hmiddle : set.diskMap middle id = .ok (middleMap, middleSize))
    (hright : set.diskMap right id = .ok (rightMap, otherSize)) :
    (∃ answer, set.Answers lru left right id answer ∧
      (answer = true ↔ size = otherSize ∧
        ∀ position, position < size → SameTarget leftMap rightMap position)) ∧
      set.Answers lru left left id true ∧
      (∀ answer, set.Answers lru left right id answer → set.Answers lru right left id answer) ∧
      (set.Answers lru left middle id true → set.Answers lru middle right id true →
        set.Answers lru left right id true) ∧
      ∀ answer, set.Answers lru left middle id true → set.Answers lru middle right id answer →
        set.Answers lru left right id answer := by
  have hstands : ∀ answer, set.Answers lru left middle id true → set.Answers lru middle right id answer →
      set.Answers lru left right id answer := by
    intro answer hsame hanswer
    have hsame := ((answers_iff_sameDisk hleft hmiddle).mp hsame).mp rfl
    rw [answers_iff_sameDisk hmiddle hright] at hanswer
    rw [answers_iff_sameDisk hleft hright, hanswer]
    exact ⟨fun h => .trans hleft hmiddle hright hsame h,
      fun h => .trans hmiddle hleft hright hsame.symm h⟩
  refine ⟨?_, ?_, ?_, hstands true, hstands⟩
  · obtain ⟨answer, hanswer⟩ : ∃ answer, set.Answers lru left right id answer :=
      ⟨_, answers_iff.mpr (eval_equivalentDiskMaps hleft hright)⟩
    exact ⟨answer, hanswer, (answers_iff_sameDisk hleft hright).mp hanswer⟩
  · exact (answers_iff_sameDisk hleft hleft).mpr ⟨fun _ => sameDisk_refl hleft, fun _ => rfl⟩
  · intro answer hanswer
    rw [answers_iff_sameDisk hleft hright] at hanswer
    rw [answers_iff_sameDisk hright hleft, hanswer]
    exact ⟨SameDisk.symm, SameDisk.symm⟩

/-! ## A disk in one range and in two -/

/-- Four zeros in one range, and in two. -/
def splitVolumes : VolumeSet where
  volumes := [
    zeroVolume "aff4://v" "4"
      [0, 0, 0, 0, 0, 0, 0, 0, 4, 0, 0, 0, 0, 0, 0, 0, 0, 0, 0, 0, 0, 0, 0, 0, 0, 0, 0, 0],
    zeroVolume "aff4://w" "4"
      [0, 0, 0, 0, 0, 0, 0, 0, 2, 0, 0, 0, 0, 0, 0, 0, 0, 0, 0, 0, 0, 0, 0, 0, 0, 0, 0, 0,
       2, 0, 0, 0, 0, 0, 0, 0, 2, 0, 0, 0, 0, 0, 0, 0, 0, 0, 0, 0, 0, 0, 0, 0, 0, 0, 0, 0]]
  owners := ∅
  distinct := by decide

def wholeMap : ResourceMap := ⟨[⟨0, 4, 0, ns ++ "Zero"⟩], ns ++ "Zero"⟩

def splitMap : ResourceMap := ⟨[⟨0, 2, 0, ns ++ "Zero"⟩, ⟨2, 4, 0, ns ++ "Zero"⟩], ns ++ "Zero"⟩

theorem equivalentDiskMaps_iff_split :
    (∃ answer, splitVolumes.Answers byRecency (0 : Fin 2) (1 : Fin 2) "aff4://d" answer ∧
      (answer = true ↔ 4 = 4 ∧ ∀ position, position < 4 → SameTarget wholeMap splitMap position)) ∧
      splitVolumes.Answers byRecency (0 : Fin 2) (0 : Fin 2) "aff4://d" true ∧
      (∀ answer, splitVolumes.Answers byRecency (0 : Fin 2) (1 : Fin 2) "aff4://d" answer →
        splitVolumes.Answers byRecency (1 : Fin 2) (0 : Fin 2) "aff4://d" answer) ∧
      (splitVolumes.Answers byRecency (0 : Fin 2) (0 : Fin 2) "aff4://d" true →
        splitVolumes.Answers byRecency (0 : Fin 2) (1 : Fin 2) "aff4://d" true →
        splitVolumes.Answers byRecency (0 : Fin 2) (1 : Fin 2) "aff4://d" true) ∧
      ∀ answer, splitVolumes.Answers byRecency (0 : Fin 2) (0 : Fin 2) "aff4://d" true →
        splitVolumes.Answers byRecency (0 : Fin 2) (1 : Fin 2) "aff4://d" answer →
        splitVolumes.Answers byRecency (0 : Fin 2) (1 : Fin 2) "aff4://d" answer := by
  have hleft : splitVolumes.diskMap (0 : Fin 2) "aff4://d" = .ok (wholeMap, 4) := by
    decide
  have hright : splitVolumes.diskMap (1 : Fin 2) "aff4://d" = .ok (splitMap, 4) := by
    decide
  exact equivalentDiskMaps_iff byRecency hleft hleft hright

end VolumeSet

end EwfImage.Aff4

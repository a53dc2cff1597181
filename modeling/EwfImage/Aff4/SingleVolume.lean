import EwfImage.Aff4.DiskPages
import EwfImage.Aff4.Linear
import EwfImage.Aff4.Open

/-!
# Sets of one volume

A container can also be opened as a set of one volume. The set reads a disk by its own walk over
the disk's map, and every range of it by following references anew from the range's target, while
the container follows them from the disk. So both find the same bytes, but where the references
that lead from the disk to a byte repeat a resource, or are too many, the container has none.

The main result is `readAt_iff_readDiskAt`, after any history of the container and of the set.
The disk has a data stream that is a map which the set accepts; the other forms of disks are
read by the container and refused by the set. `not_readAt_iff_readDiskAt` is a container whose
disk leads back to itself: it shows that the condition on the references cannot be left out.
-/

namespace EwfImage.Aff4

open ByteStore Delivery Fallible LruCache Queries Std Triples Word

namespace Container

variable {c : Container} {id target : String} {size position : Nat}

/-! ## Bytes and the references to them -/

theorem targetByte_cases :
    (∀ next, c.targetByte next id target size position = next target position) ∨
      ∀ next, c.targetByte next id target size position = none := by
  by_cases hcontiguous : c.hasType id "ContiguousImage" ∧ c.hasType target "Map"
  · cases hmap : c.map target with
    | error e =>
      refine .inr fun next => ?_
      rw [targetByte, if_pos hcontiguous, hmap]
      rfl
    | ok map =>
      cases hcheck : checkContiguous map size with
      | error e =>
        refine .inr fun next => ?_
        rw [targetByte, if_pos hcontiguous, hmap]
        change ((checkContiguous map size).toOption >>= _) = _
        rw [hcheck]
        rfl
      | ok u => exact .inl fun next => targetByte_eq fun _ _ => ⟨map, hmap, hcheck⟩
  · exact .inl fun next => if_neg hcontiguous

theorem ownByte_cases (hsymbolic : symbolicByte id = none) (hown : c.StoresOwn id) :
    (∃ leaf, ∀ next, c.ownByte next id size position = leaf) ∨
      ∃ target address, c.reference id position = some (target, address) ∧
        (∀ next, c.ownByte next id size position = next target address) := by
  by_cases hzip : c.isZipSegment id = true
  · exact .inl ⟨_, fun next => if_pos hzip⟩
  by_cases hmapped : c.hasType id "Map" = true
  · have howned : ∀ next, c.ownByte next id size position =
        ((c.map id).toOption >>= fun map =>
          next (map.place position).1 (map.place position).2) := by
      intro next
      rw [ownByte, if_neg hzip, if_pos hmapped]
    cases hmap : c.map id with
    | error e =>
      refine .inl ⟨none, fun next => ?_⟩
      rw [howned, hmap]
      rfl
    | ok map =>
      refine .inr ⟨(map.place position).1, (map.place position).2, ?_, fun next => ?_⟩
      · unfold reference
        rw [hsymbolic, hown.1, hown.2]
        dsimp only
        rw [if_neg (not_or.mpr ⟨hzip, not_not.mpr hmapped⟩), hmap]
        rfl
      · rw [howned, hmap]
        rfl
  · refine .inl ⟨c.ownByte (fun _ _ => none) id size position, fun next => ?_⟩
    simp only [ownByte, if_neg hzip, if_neg hmapped]

/-- The byte at an address is that of the reference there, or no reference leads to it. -/
theorem storedByte_cases (hsymbolic : symbolicByte id = none) :
    (∃ leaf, ∀ next, c.storedByte next id size position = leaf) ∨
      ∃ target address, c.reference id position = some (target, address) ∧
        (∀ next, c.storedByte next id size position = next target address) := by
  cases hinline : c.inlineData id with
  | error e =>
    refine .inl ⟨none, fun next => ?_⟩
    rw [storedByte, hinline]
    rfl
  | ok inline =>
    cases inline with
    | some data =>
      refine .inl ⟨data[position]?, fun next => ?_⟩
      rw [storedByte, hinline]
      rfl
    | none =>
      cases hvalue : c.value id "dataStream" with
      | error e =>
        refine .inl ⟨none, fun next => ?_⟩
        rw [storedByte, hinline]
        change ((c.value id "dataStream").toOption >>= _) = _
        rw [hvalue]
        rfl
      | ok found =>
        cases found with
        | some target =>
          have hreference : c.reference id position = some (target, position) := by
            unfold reference
            rw [hsymbolic, hinline, hvalue]
          have hstored : ∀ next, c.storedByte next id size position =
              c.targetByte next id target size position :=
            fun next => storedByte_of_dataStream hinline hvalue
          rcases c.targetByte_cases with hfound | hnone
          · exact .inr ⟨target, position, hreference, fun next => (hstored next).trans (hfound next)⟩
          · exact .inl ⟨none, fun next => (hstored next).trans (hnone next)⟩
        | none =>
          have hown : c.StoresOwn id := ⟨hinline, hvalue⟩
          have hstored : ∀ next, c.storedByte next id size position =
              c.ownByte next id size position := fun next => storedByte_of_own hown
          simp only [hstored]
          exact ownByte_cases hsymbolic hown

/-- A byte is also found after other references, if those that lead on from it still may follow. -/
theorem byteAt_of_trails {depth depth' : Nat} {visited visited' : List String} {byte : UInt8}
    (h : c.byteAt depth visited id position = some byte)
    (htrails : ∀ trail, c.Follows id position trail → trail.Nodup ∧
      (∀ other ∈ trail, other ∉ visited') ∧ visited'.length + trail.length ≤ 32)
    (hdepth : 32 ≤ depth' + visited'.length) :
    c.byteAt depth' visited' id position = some byte := by
  induction depth generalizing depth' visited visited' id position with
  | zero => cases h
  | succ depth ih =>
    obtain ⟨-, hfresh, hshort⟩ := htrails [id] (.here id position)
    rw [List.length_singleton] at hshort
    have henter : enter id visited' = .ok (id :: visited') := by
      unfold enter
      rw [rejectIf_neg]
      · rfl
      · rintro (hlong | hmem)
        · omega
        · exact hfresh id (List.mem_singleton_self id) hmem
    cases depth' with
    | zero => omega
    | succ depth' =>
      rcases stored_of_byteAt h with hsymbolic | ⟨hsymbolic, size, hsize, hin, hstored⟩
      · exact byteAt_of_symbolic henter hsymbolic
      · rw [byteAt_of_enter henter hsymbolic hsize hin]
        rcases storedByte_cases hsymbolic with ⟨leaf, hleaf⟩ | ⟨target, address, hstep, hnext⟩
        · rw [hleaf] at hstored ⊢
          exact hstored
        · rw [hnext] at hstored ⊢
          refine ih hstored (fun trail hfollows => ?_) (by rw [List.length_cons]; omega)
          obtain ⟨hnodup, hothers, hlength⟩ := htrails _ (.next hstep hfollows)
          rw [List.nodup_cons] at hnodup
          refine ⟨hnodup.2, fun other hother => ?_, ?_⟩
          · rw [List.mem_cons, not_or]
            refine ⟨fun hsame => hnodup.1 (hsame ▸ hother), ?_⟩
            exact hothers other (List.mem_cons_of_mem _ hother)
          · rw [List.length_cons] at hlength ⊢
            omega

/-! ## Disks with a map -/

/-- The data stream of a resource is a map, and both are read by their references. -/
structure SelectsMap (c : Container) (id target : String) : Prop where
  image : c.value id "dataStream" = .ok (some target)
  typed : c.hasType target "Map"
  plain : ¬ c.isZipSegment target
  own : c.value target "dataStream" = .ok none
  imageInline : c.inlineData id = .ok none
  mapInline : c.inlineData target = .ok none
  imageSymbolic : symbolicByte id = none
  mapSymbolic : symbolicByte target = none

variable {map : ResourceMap}

theorem SelectsMap.ne (h : c.SelectsMap id target) : id ≠ target := by
  rintro rfl
  have himage := h.image
  rw [h.own] at himage
  cases himage

theorem SelectsMap.enters (h : c.SelectsMap id target) :
    enter id [] = .ok [id] ∧ enter target [id] = .ok [target, id] := by
  refine ⟨rfl, ?_⟩
  unfold enter
  rw [rejectIf_neg]
  · rfl
  · rintro (hlong | hmem)
    · simp at hlong
    · exact h.ne (List.mem_singleton.mp hmem).symm

/-- The size of the disk is that of its map. -/
theorem SelectsMap.size_eq (h : c.SelectsMap id target) (hnumber : c.number target "size" = .ok size)
    (hdeclared : ∀ found, c.value id "size" = .ok found → found.isSome →
      c.number id "size" = .ok size) (hvalue : ∃ found, c.value id "size" = .ok found) :
    c.size id = .ok size := by
  have hmap : c.streamSize 31 [id] target = .ok size := by
    rw [streamSize, h.enters.2, ok_bind, h.mapInline, ok_bind]
    simp only [Option.isSome_none, Bool.false_eq_true, if_false]
    rw [h.own, ok_bind]
    exact hnumber
  obtain ⟨found, hfound⟩ := hvalue
  unfold Container.size
  rw [streamSize, h.enters.1, ok_bind, h.imageInline, ok_bind]
  simp only [Option.isSome_none, Bool.false_eq_true, if_false]
  rw [h.image, ok_bind]
  dsimp only
  rw [hmap, ok_bind, hfound, ok_bind]
  by_cases hsome : found.isSome = true
  · rw [if_pos hsome, hdeclared found hfound hsome, ok_bind, rejectIf_neg _ (not_not.mpr rfl)]
    rfl
  · rw [if_neg hsome]
    rfl

/-- The byte of the disk is that of the target of its map, after two references. -/
theorem SelectsMap.denotes (h : c.SelectsMap id target) (hsize : c.size id = .ok size)
    (hmap : c.map target = .ok map) (hnumber : c.number target "size" = .ok size)
    (hcontiguous : c.hasType id "ContiguousImage" → checkContiguous map size = .ok ())
    (hin : position < size) {found : String × Nat × Nat}
    (hfound : c.mapTarget target map position = .ok found) :
    c.denotes id position = c.byteAt 30 [target, id] found.1 found.2.1 := by
  have htarget : c.size target = .ok size := by
    rw [size_eq_number h.mapInline h.own]
    exact hnumber
  unfold Container.denotes
  rw [byteAt_of_enter h.enters.1 h.imageSymbolic hsize hin,
    storedByte_of_dataStream h.imageInline h.image,
    targetByte_eq fun hdeclared _ => ⟨map, hmap, hcontiguous hdeclared⟩,
    byteAt_of_enter h.enters.2 h.mapSymbolic htarget hin, storedByte_of_own ⟨h.mapInline, h.own⟩,
    ownByte, if_neg h.plain, if_pos h.typed, hmap]
  change c.byteAt 30 [target, id] (map.place position).1 (map.place position).2 = _
  rw [place_of_mapTarget hmap hfound]

theorem SelectsMap.follows (h : c.SelectsMap id target) (hmap : c.map target = .ok map)
    {found : String × Nat × Nat} (hfound : c.mapTarget target map position = .ok found)
    {trail : List String} (hfollows : c.Follows found.1 found.2.1 trail) :
    c.Follows id position (id :: target :: trail) := by
  have himage : c.reference id position = some (target, position) := by
    unfold reference
    rw [h.imageSymbolic, h.imageInline, h.image]
  have htarget : c.reference target position = some (found.1, found.2.1) := by
    unfold reference
    rw [h.mapSymbolic, h.mapInline, h.own]
    dsimp only
    rw [if_neg (not_or.mpr ⟨h.plain, not_not.mpr h.typed⟩), hmap]
    exact congrArg some (place_of_mapTarget hmap hfound)
  exact .next himage (.next htarget hfollows)

/-- The disk has the byte that the target of its map has, if the references that lead there from
the disk are few and lead to new resources. -/
theorem SelectsMap.denotes_iff (h : c.SelectsMap id target) (hsize : c.size id = .ok size)
    (hmap : c.map target = .ok map) (hnumber : c.number target "size" = .ok size)
    (hcontiguous : c.hasType id "ContiguousImage" → checkContiguous map size = .ok ())
    (hin : position < size) {found : String × Nat × Nat}
    (hfound : c.mapTarget target map position = .ok found) {byte : UInt8} :
    c.denotes id position = some byte ↔ c.denotes found.1 found.2.1 = some byte ∧
      ∀ trail, c.Follows id position trail → trail.Nodup ∧ trail.length ≤ 32 := by
  constructor
  · intro hbyte
    have htrails : ∀ trail, c.Follows id position trail → trail.Nodup ∧ trail.length ≤ 32 := by
      intro trail hfollows
      obtain ⟨hnodup, -, hlength⟩ := nodup_of_byteAt hfollows hbyte
      exact ⟨hnodup, by simpa using hlength⟩
    rw [h.denotes hsize hmap hnumber hcontiguous hin hfound] at hbyte
    refine ⟨byteAt_of_trails hbyte (fun trail hfollows => ?_) (Nat.le_add_right _ _), htrails⟩
    obtain ⟨hnodup, -, hlength⟩ := nodup_of_byteAt hfollows hbyte
    exact ⟨hnodup, fun _ _ hnil => (by cases hnil), by rw [List.length_nil]; omega⟩
  · rintro ⟨hbyte, htrails⟩
    rw [h.denotes hsize hmap hnumber hcontiguous hin hfound]
    refine byteAt_of_trails hbyte (fun trail hfollows => ?_) (Nat.le_refl _)
    obtain ⟨hnodup, hlength⟩ := htrails _ (h.follows hmap hfound hfollows)
    simp only [List.nodup_cons, List.mem_cons, not_or] at hnodup
    refine ⟨hnodup.2.2, fun other hother => ?_, ?_⟩
    · simp only [List.mem_cons, List.not_mem_nil, or_false, not_or]
      exact ⟨fun hsame => hnodup.2.1 (hsame ▸ hother), fun hsame => hnodup.1.2 (hsame ▸ hother)⟩
    · simp only [List.length_cons, List.length_nil] at hlength ⊢
      omega

end Container

namespace VolumeSet

variable {set : VolumeSet} {c : Container} {primary : set.Index} {id target : String} {size : Nat}
  {map : ResourceMap}

theorem volumes_of_fromContainers {volumes : List Container}
    (h : VolumeSet.fromContainers volumes = .ok set) : set.volumes = volumes := by
  unfold fromContainers at h
  split at h
  · simp only [bind_eq_ok, pure_eq_ok] at h
    obtain ⟨owners, -, _, -, hset⟩ := h
    cases hset
    rfl
  · cases h

/-- Every volume of a set of one container is that container. -/
theorem volume_eq (h : set.volumes = [c]) (index : set.Index) : set.volume index = c := by
  have hmem : set.volume index ∈ set.volumes := List.get_mem _ _
  rw [h] at hmem
  exact List.mem_singleton.mp hmem

/-- The targets of a disk's map belong to volumes of the set. -/
theorem CheckedMap.owner (h : CheckedMap set primary id target map size) (position : Nat) :
    ∃ owner, set.owner primary (mapInterval map position size).1 = .ok owner := by
  unfold mapInterval
  cases hfind : map.ranges.find? (position < ·.stop) with
  | none => exact h.gap
  | some range =>
    dsimp only
    by_cases hstart : range.start ≤ position
    · rw [if_pos hstart]
      exact h.owned range (List.mem_of_find?_eq_some hfind)
    · rw [if_neg hstart]
      exact h.gap

/-- The container finds the same target. -/
theorem CheckedMap.mapTarget_eq (h : CheckedMap set primary id target map size) (position : Nat) :
    (set.volume primary).mapTarget target map position = .ok (mapInterval map position size) := by
  unfold Container.mapTarget mapInterval
  cases hfind : map.ranges.find? (position < ·.stop) with
  | none =>
    dsimp only
    rw [h.number]
    rfl
  | some range =>
    dsimp only
    by_cases hstart : range.start ≤ position
    · rw [if_pos hstart, if_pos hstart, Nat.add_sub_assoc hstart]
    · rw [if_neg hstart, if_neg hstart, h.number]
      rfl

section Single

variable (hset : set.volumes = [c]) (hselects : c.SelectsMap id target)
  (hmap : set.diskMap primary id = .ok (map, size))

include hset hselects hmap

theorem checkedMap_of_diskMap :
    c.map target = .ok map ∧ CheckedMap set primary id target map size := by
  have hfound := hmap
  simp only [diskMap, mapTarget, refuseIf, bind_eq_ok, okOr_eq_ok, pure_eq_ok,
    volume_eq hset primary, hselects.image] at hfound
  obtain ⟨found, ⟨_, -, _, himage, hsome⟩, map', hmap', size', hcheck, hresult⟩ := hfound
  cases himage
  cases hsome
  cases hresult
  exact ⟨hmap', checkMap_spec hcheck⟩

theorem size_of_diskMap : c.size id = .ok size := by
  obtain ⟨-, hchecked⟩ := checkedMap_of_diskMap hset hselects hmap
  have hnumber := hchecked.number
  obtain ⟨found, hvalue, hdeclared⟩ := hchecked.declared
  rw [volume_eq hset] at hnumber hvalue hdeclared
  refine hselects.size_eq hnumber (fun other hother hsome => ?_) ⟨found, hvalue⟩
  rw [hvalue] at hother
  cases hother
  exact hdeclared hsome

/-- A byte of the container's disk is one of the set's disk, and few references lead to it. -/
theorem denotes_iff_diskByte {position : Nat} (hin : position < size) {byte : UInt8} :
    c.denotes id position = some byte ↔ set.diskByte primary true id position = some byte ∧
      ∀ trail, c.Follows id position trail → trail.Nodup ∧ trail.length ≤ 32 := by
  obtain ⟨hmap', hchecked⟩ := checkedMap_of_diskMap hset hselects hmap
  have hnumber := hchecked.number
  have htarget := hchecked.mapTarget_eq position
  have hcontiguous := hchecked.contiguous
  rw [volume_eq hset] at hnumber htarget hcontiguous
  obtain ⟨owner, howner⟩ := hchecked.owner position
  rw [hselects.denotes_iff (size_of_diskMap hset hselects hmap) hmap' hnumber hcontiguous hin htarget,
    diskByte_of_mapped hmap, howner]
  change _ ↔ (set.volume owner).denotes _ _ = some byte ∧ _
  rw [volume_eq hset]

omit hset hselects in
theorem readUncached_eq_ok {offset length : Nat} {bytes : Bytes} :
    set.readUncached primary true id offset length = .ok bytes ↔
      window (set.diskByte primary true id) offset (min (size - offset) length) =
        bytes.map some := by
  have hsize : set.sizeOf primary true id = .ok size := by
    rw [sizeOf_mapped, hmap]
    rfl
  exact delivers_readDiskAtImpl false offset length hsize bytes

/-- The container reads what the set reads, where few references lead to the bytes. -/
theorem eval_readAt_iff {offset length : Nat} {bytes : Bytes} :
    (c.readAt id offset length).eval c.answer = .ok bytes ↔
      set.readUncached primary true id offset length = .ok bytes ∧
        ∀ position trail, offset ≤ position → position < offset + length → position < size →
          c.Follows id position trail → trail.Nodup ∧ trail.length ≤ 32 := by
  have hsize := size_of_diskMap hset hselects hmap
  have hbyte : ∀ i, i < min (size - offset) length → ∀ byte,
      (c.denotes id (offset + i) = some byte ↔ set.diskByte primary true id (offset + i) = some byte ∧
        ∀ trail, c.Follows id (offset + i) trail → trail.Nodup ∧ trail.length ≤ 32) :=
    fun i hi byte => denotes_iff_diskByte hset hselects hmap (by omega)
  rw [Container.eval_readAt_eq_ok, readUncached_eq_ok hmap]
  simp only [hsize, Except.ok.injEq, exists_eq_left', window_eq_map_some]
  constructor
  · rintro ⟨hlength, hitems⟩
    have hboth : ∀ i, i < min (size - offset) length →
        set.diskByte primary true id (offset + i) = bytes[i]? ∧
          ∀ trail, c.Follows id (offset + i) trail → trail.Nodup ∧ trail.length ≤ 32 := by
      intro i hi
      have hitem := hitems i hi
      rw [List.getElem?_eq_getElem (hlength.symm ▸ hi)] at hitem ⊢
      exact (hbyte i hi _).mp hitem
    refine ⟨⟨hlength, fun i hi => (hboth i hi).1⟩, fun position trail hge hlt hin => ?_⟩
    have htrails := (hboth (position - offset) (by omega)).2 trail
    rwa [Nat.add_sub_cancel' hge] at htrails
  · rintro ⟨⟨hlength, hitems⟩, htrails⟩
    refine ⟨hlength, fun i hi => ?_⟩
    have hitem := hitems i hi
    rw [List.getElem?_eq_getElem (hlength.symm ▸ hi)] at hitem ⊢
    exact (hbyte i hi _).mpr ⟨hitem, fun trail => htrails _ trail (by omega) (by omega) (by omega)⟩

end Single

/-- A disk whose data stream is a map, read after any history of the container and of its set of
one volume: they report the same size, and the container returns bytes exactly when the set returns
them and, from the addresses of the range, the references that lead from the disk are at most 32 and
lead to new resources. -/
theorem readAt_iff_readDiskAt (lru : Interface) (c : Container) (set : VolumeSet)
    (hopens : VolumeSet.fromContainers [c] = .ok set) (primary : set.Index) (id target : String)
    (hselects : c.SelectsMap id target) (map : ResourceMap) (size : Nat)
    (haccepts : set.diskMap primary id = .ok (map, size))
    (operations : List Container.Operation) (setOperations : List (Operation set))
    (offset length : Nat) (bytes : Bytes) :
    let s := c.cachesAfter lru operations
    let t := set.cachesAfter lru (fun _ _ => true) setOperations
    c.size id = .ok size ∧
    (∃ t', (set.diskSize primary true id).run set.serve t = .ok size t') ∧
    ((∃ s', (c.readAt id offset length).run c.serve s = .ok bytes s') ↔
      (∃ t', set.readDiskAt primary true id offset length t = .ok bytes t') ∧
        ∀ position trail, offset ≤ position → position < offset + length → position < size →
          c.Follows id position trail → trail.Nodup ∧ trail.length ≤ 32) := by
  intro s t
  have hset := volumes_of_fromContainers hopens
  have hcoherent : c.Coherent lru c.OwnEntry s := Container.coherent_cachesAfter lru operations
  have hkept : Coherent lru (fun _ _ => true) t := coherent_cachesAfter setOperations
  have hread : (∃ s', (c.readAt id offset length).run c.serve s = .ok bytes s') ↔
      (c.readAt id offset length).eval c.answer = .ok bytes :=
    ((Container.serves_answer c.admits_ownEntry).run _).ok_iff hcoherent
  have hdisk : (∃ t', set.readDiskAt primary true id offset length t = .ok bytes t') ↔
      set.readUncached primary true id offset length = .ok bytes :=
    (agrees_readDiskAt primary id offset length).ok_iff hkept
  refine ⟨size_of_diskMap hset hselects haccepts, ?_, ?_⟩
  · refine ((serves_answer.run (set.diskSize primary true id)).ok_iff hkept).mpr ?_
    change set.sizeOf primary true id = .ok size
    rw [sizeOf_mapped, haccepts]
    rfl
  · rw [hread, hdisk]
    exact eval_readAt_iff hset hselects haccepts

/-! ## A stream that is read from the disk -/

section Looping

/-- The document of a container with a disk, its map, and a stream that refers to the disk. -/
def loopingDocument : String :=
  "@prefix aff4: <http://aff4.org/Schema#> .\n" ++
    "<aff4://v/i> a aff4:DiskImage ; aff4:dataStream <aff4://v/m> .\n" ++
    "<aff4://v/m> a aff4:Map ; aff4:size 2 .\n" ++
    "<aff4://v/t> a aff4:ImageStream ; aff4:size 2 ; aff4:dataStream <aff4://v/i> .\n"

def loopingLibraries : Libraries :=
  .plain (fun _ => []) [.typed "aff4://v/i" "DiskImage", .references "aff4://v/i" "aff4://v/m",
    .typed "aff4://v/m" "Map", .sized "aff4://v/m" "2", .typed "aff4://v/t" "ImageStream",
    .sized "aff4://v/t" "2", .references "aff4://v/t" "aff4://v/i"]

/-- The map takes its first byte from the second one of the stream, and has a zero behind it. -/
def loopingArchive : ZipArchive :=
  .plain loopingDocument [("t/00000000", []),
    ("m/map",
      [0, 0, 0, 0, 0, 0, 0, 0, 1, 0, 0, 0, 0, 0, 0, 0, 1, 0, 0, 0, 0, 0, 0, 0, 0, 0, 0, 0,
       1, 0, 0, 0, 0, 0, 0, 0, 1, 0, 0, 0, 0, 0, 0, 0, 0, 0, 0, 0, 0, 0, 0, 0, 1, 0, 0, 0]),
    ("m/idx", utf8Bytes ("aff4://v/t\n" ++ ns ++ "Zero\n"))]

/-- What is asked of the container below. -/
def LoopingFacts (c : Container) : Prop :=
  c.version = (1, 0) ∧
  c.value "aff4://v/i" "dataStream" = .ok (some "aff4://v/m") ∧
  c.hasType "aff4://v/m" "Map" = true ∧
  c.isZipSegment "aff4://v/m" = false ∧
  c.value "aff4://v/m" "dataStream" = .ok none ∧
  c.inlineData "aff4://v/i" = .ok none ∧
  c.inlineData "aff4://v/m" = .ok none ∧
  ((c.readAt "aff4://v/i" 0 1).eval c.answer).toOption = none

instance (c : Container) : Decidable (LoopingFacts c) := inferInstanceAs (Decidable (_ ∧ _))

/-- What is asked of the set of this container. -/
def loops (set : VolumeSet) : Bool :=
  if h : 0 < set.volumes.length then
    (set.diskMap ⟨0, h⟩ "aff4://v/i").toOption.any (·.2 = 2) ∧
      set.readUncached ⟨0, h⟩ true "aff4://v/i" 0 1 = .ok [0]
  else false

theorem exists_looping : ∃ c, openContainer loopingLibraries loopingArchive [] .unrestricted = .ok c ∧
    LoopingFacts c ∧ ∃ set, VolumeSet.fromContainers [c] = .ok set ∧ loops set = true := by
  have hopens : (openContainer loopingLibraries loopingArchive [] .unrestricted).toOption.any
      (fun c => decide (LoopingFacts c) &&
        (VolumeSet.fromContainers [c]).toOption.any loops) = true := by decide +kernel
  obtain ⟨c, hc, hfacts⟩ := (Option.any_eq_true ..).mp hopens
  rw [Bool.and_eq_true] at hfacts
  obtain ⟨set, hset, hloops⟩ := (Option.any_eq_true ..).mp hfacts.2
  exact ⟨c, toOption_eq_some.mp hc, of_decide_eq_true hfacts.1, set, toOption_eq_some.mp hset, hloops⟩

theorem loops_spec {set : VolumeSet} (h : loops set = true) : ∃ primary : set.Index, ∃ map,
    set.diskMap primary "aff4://v/i" = .ok (map, 2) ∧
      set.readUncached primary true "aff4://v/i" 0 1 = .ok [0] := by
  unfold loops at h
  by_cases hvolumes : 0 < set.volumes.length
  · rw [dif_pos hvolumes, decide_eq_true_eq] at h
    obtain ⟨hmap, hread⟩ := h
    obtain ⟨⟨map, size⟩, hfound, hsize⟩ := (Option.any_eq_true ..).mp hmap
    have htwo : size = 2 := of_decide_eq_true hsize
    exact ⟨⟨0, hvolumes⟩, map, by rw [toOption_eq_some.mp hfound, htwo], hread⟩
  · rw [dif_neg hvolumes] at h
    cases h

theorem selectsMap_of_facts {c : Container} (h : LoopingFacts c) :
    c.SelectsMap "aff4://v/i" "aff4://v/m" := by
  obtain ⟨-, himage, htyped, hplain, hown, himageInline, hmapInline, -⟩ := h
  exact ⟨himage, htyped, by rw [hplain]; decide, hown, himageInline, hmapInline, by decide,
    by decide⟩

/-- The set reads a byte of the disk at which the container finds a loop. -/
theorem not_readAt_iff_readDiskAt : ∃ c,
    openContainer loopingLibraries loopingArchive [] .unrestricted = .ok c ∧ c.version = (1, 0) ∧
      c.SelectsMap "aff4://v/i" "aff4://v/m" ∧ ∃ set, VolumeSet.fromContainers [c] = .ok set ∧
        ∃ primary : set.Index, (∃ found, set.diskMap primary "aff4://v/i" = .ok found) ∧
          (∃ t : set.SetCaches byRecency,
            set.readDiskAt primary true "aff4://v/i" 0 1 {} = .ok [0] t) ∧
          ∀ bytes, ∀ s : Caches byRecency, (c.readAt "aff4://v/i" 0 1).run c.serve {} ≠ .ok bytes s := by
  obtain ⟨c, hc, hfacts, set, hset, hloops⟩ := exists_looping
  obtain ⟨primary, map, hmap, hread⟩ := loops_spec hloops
  refine ⟨c, hc, hfacts.1, selectsMap_of_facts hfacts, set, hset, primary, ⟨_, hmap⟩, ?_, ?_⟩
  · have hnew : Coherent byRecency (fun _ _ => true) ({} : set.SetCaches byRecency) := coherent_new
    exact ((agrees_readDiskAt primary "aff4://v/i" 0 1).ok_iff hnew).mpr hread
  · intro bytes s hrun
    have heval := (((Container.serves_answer c.admits_ownEntry).run _).ok_iff
      (Container.coherent_new c byRecency _)).mp ⟨s, hrun⟩
    have hnone := hfacts.2.2.2.2.2.2.2
    rw [heval] at hnone
    cases hnone

theorem readAt_iff_readDiskAt_looping : ∃ (c : Container) (set : VolumeSet) (primary : set.Index),
    openContainer loopingLibraries loopingArchive [] .unrestricted = .ok c ∧
      c.size "aff4://v/i" = .ok 2 ∧
      ((∃ s' : Caches byRecency, (c.readAt "aff4://v/i" 1 1).run c.serve {} = .ok [0] s') ↔
        (∃ t' : set.SetCaches byRecency,
            set.readDiskAt primary true "aff4://v/i" 1 1 {} = .ok [0] t') ∧
          ∀ position trail, 1 ≤ position → position < 1 + 1 → position < 2 →
            c.Follows "aff4://v/i" position trail → trail.Nodup ∧ trail.length ≤ 32) := by
  obtain ⟨c, hc, hfacts, set, hset, hloops⟩ := exists_looping
  obtain ⟨primary, map, hmap, -⟩ := loops_spec hloops
  have hagrees := readAt_iff_readDiskAt byRecency c set hset primary "aff4://v/i" "aff4://v/m"
    (selectsMap_of_facts hfacts) map 2 hmap [] [] 1 1 [0]
  exact ⟨c, set, primary, hc, hagrees.1, hagrees.2.2⟩

end Looping

end VolumeSet

end EwfImage.Aff4

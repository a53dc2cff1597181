import EwfImage.Aff4.History

/-!
# Linear backing

A sequential traversal of a resource replaces it by its linear backing. Along the references
that a read follows too, nothing changes. The two resolutions part at the identifiers of symbolic
streams, at resources that are a ZIP segment and a map or have inline data as well, and at images
whose declaration as contiguous fails behind a map. Where they part, a read finds what is stored
there, so the traversal delivers the same exactly when the member that it decodes holds the same
(`straight_iff`).
-/

namespace EwfImage.Aff4

open ByteStore Delivery Fallible Queries Triples

namespace Container

variable (c : Container)

/-- The resource that a turn of `linear_backing` goes on with, unless it ends there. -/
def linearNext (target : String) : Result (Option String) := do
  if (← c.inlineData target).isSome then return none
  else match ← c.value target "dataStream" with
    | some next => return some next
    | none =>
      if c.hasType target "Map" then
        let map ← c.map target
        match map.ranges with
        | [range] =>
          if range.start = 0 ∧ range.offset = 0 then
            let size ← c.size target
            if range.stop = size ∧ (c.size range.target).toOption = some range.stop then
              return some range.target
            else return none
          else return none
        | _ => return none
      else return none

/-- The linear backing without caches. -/
def backing : Nat → List String → String → Result String
  | 0, _, _ => .error (.malformed "cyclic or excessively deep stream references")
  | depth + 1, visited, id => do
    let visited ← enter id visited
    match ← c.linearNext id with
    | some next => backing depth visited next
    | none => return id

/-- The data of the resource is stored under its own identifier. -/
def StoresOwn (id : String) : Prop := c.inlineData id = .ok none ∧ c.value id "dataStream" = .ok none

/-- What a traversal decodes once, if its backing is a ZIP segment. -/
def openBacking (size : Nat) (backing : Result String) : Result (Option ByteStream) := do
  let target ← backing
  if c.isZipSegment target then
    let path ← c.path target
    let (file, contents) ← c.archive.byName path
    refuseIf (file.size ≠ size) (.malformed "ZIP segment size mismatch")
    return some contents
  else return none

/-- A traversal delivers the given bytes: it reads them by position, or it decodes a member that
ends behind them, or they are not all there and it fails as well. -/
def Agrees (bytes : Nat → Option UInt8) (size : Nat) : Result (Option ByteStream) → Prop
  | .error _ => ∃ i, i < size ∧ bytes i = none
  | .ok none => True
  | .ok (some contents) =>
    if size ≤ contents.output.length then
      contents.hasMore size = .ok false ∧ ∀ i, i < size → bytes i = contents.output[i]?
    else ∃ i, i < size ∧ bytes i = none

/-- Sequential resolution treats a resource of the given size as a read does. -/
structure ResolvedAsRead (size : Nat) (behindMap : Bool) (id : String) : Prop where
  stored : symbolicByte id = none
  /-- A ZIP segment is not left for the target of a map. -/
  segment : c.isZipSegment id → c.StoresOwn id → c.linearNext id = .ok none
  inline : c.isZipSegment id → ∀ data, c.inlineData id ≠ .ok (some data)
  /-- A member of the declared size that delivers it ends there. -/
  ends : c.isZipSegment id → c.StoresOwn id → ∀ path file contents, c.path id = .ok path →
    c.archive.byName path = .ok (file, contents) → file.size = size →
    size ≤ contents.output.length → contents.hasMore size = .ok false
  /-- Behind a map no declaration of a contiguous image fails. -/
  contiguous : behindMap → ∀ target, c.value id "dataStream" = .ok (some target) →
    c.hasType id "ContiguousImage" → c.hasType target "Map" →
    ∃ map, c.map target = .ok map ∧ checkContiguous map size = .ok ()

/-- What a read finds in a resource where the two resolutions part: the byte of its name, of its
inline data or of its member, and nothing where a declaration fails. -/
def heldByte (id : String) (size position : Nat) : Option UInt8 :=
  match symbolicByte id with
  | some byte => byte.toOption
  | none => do
    match ← (c.inlineData id).toOption with
    | some data => data[position]?
    | none =>
      match ← (c.value id "dataStream").toOption with
      | some _ => none
      | none => c.zipByte id size position

/-- The resources on the way to the backing are resolved as a read resolves them. The first one that
is not holds what the traversal delivers. -/
def Straight (size : Nat) : Nat → Bool → List String → String → Prop
  | 0, _, _, _ => True
  | depth + 1, behindMap, visited, id => ∀ visited', enter id visited = .ok visited' →
    (c.ResolvedAsRead size behindMap id → ∀ next, c.linearNext id = .ok (some next) →
      Straight size depth (behindMap || decide (c.value id "dataStream" = .ok none)) visited' next) ∧
    (¬ c.ResolvedAsRead size behindMap id →
      Agrees (c.heldByte id size) size (c.openBacking size (c.backing (depth + 1) visited id)))

/-- A read of no byte succeeds. -/
def Opens (depth : Nat) (visited : List String) (id : String) : Prop :=
  ∃ bytes, (c.readInner false depth visited id 0 0).eval c.answer = .ok bytes

/-- A resource without bytes can be opened, and one that can be opened is traversed as it is
read. -/
structure TraversedAsRead (id : String) (size : Nat) : Prop where
  opens : size = 0 → c.Opens 32 [] id
  way : c.Opens 32 [] id → c.Straight size 32 false [] id

variable {c} {id next : String} {size : Nat}

theorem eval_linearBackingLoop (depth : Nat) (visited : List String) :
    (c.linearBackingLoop depth visited id).eval c.answer = c.backing depth visited id := by
  induction depth generalizing visited id with
  | zero => rfl
  | succ depth ih =>
    rw [linearBackingLoop, backing, Program.eval_bind, Program.eval_lift]
    congr 1
    funext visited'
    rw [Program.eval_bind, Program.eval_lift]
    unfold linearNext
    cases c.inlineData id with
    | error e => rfl
    | ok inline =>
      rw [ok_bind, ok_bind, Program.eval_ite]
      by_cases hinline : inline.isSome = true
      · rw [if_pos hinline, if_pos hinline]
        rfl
      · rw [if_neg hinline, if_neg hinline, Program.eval_bind, Program.eval_lift]
        cases c.value id "dataStream" with
        | error e => rfl
        | ok target =>
          rw [ok_bind, ok_bind]
          cases target with
          | some target => exact ih visited'
          | none =>
            dsimp only
            rw [Program.eval_ite]
            by_cases hmapped : c.hasType id "Map" = true
            · rw [if_pos hmapped, if_pos hmapped, Program.eval_bind]
              change (c.map id >>= _) = _
              cases c.map id with
              | error e => rfl
              | ok map =>
                obtain ⟨ranges, gap⟩ := map
                rw [ok_bind, ok_bind]
                rcases ranges with - | ⟨range, - | ⟨range', rest⟩⟩
                · rfl
                · dsimp only
                  rw [Program.eval_ite]
                  by_cases hidentity : range.start = 0 ∧ range.offset = 0
                  · rw [if_pos hidentity, if_pos hidentity, Program.eval_bind, Program.eval_lift]
                    cases c.size id with
                    | error e => rfl
                    | ok size =>
                      rw [ok_bind, ok_bind, Program.eval_ite]
                      by_cases hall : range.stop = size ∧
                          (c.size range.target).toOption = some range.stop
                      · rw [if_pos hall, if_pos hall]
                        exact ih visited'
                      · rw [if_neg hall, if_neg hall]
                        rfl
                  · rw [if_neg hidentity, if_neg hidentity]
                    rfl
                · rfl
            · rw [if_neg hmapped, if_neg hmapped]
              rfl

theorem eval_linearBacking : (c.linearBacking id).eval c.answer = c.backing 32 [] id :=
  eval_linearBackingLoop 32 []

/-! ## Sizes along references -/

/-- More references may follow, and fewer have been passed: the size stays. -/
theorem streamSize_mono {depth depth' : Nat} {visited visited' : List String}
    (hdepth : depth ≤ depth') (hlength : visited'.length ≤ visited.length)
    (hvisited : ∀ other ∈ visited', other ∈ visited)
    (h : c.streamSize depth visited id = .ok size) : c.streamSize depth' visited' id = .ok size := by
  induction depth generalizing depth' visited visited' id size with
  | zero => cases h
  | succ depth ih =>
    cases depth' with
    | zero => omega
    | succ depth' =>
      rw [streamSize, bind_eq_ok] at h
      obtain ⟨entered, henter, h⟩ := h
      obtain ⟨rfl, hshort, hfresh⟩ := enter_eq_ok henter
      have henter' : enter id visited' = .ok (id :: visited') := by
        unfold enter
        rw [rejectIf_neg]
        · rfl
        · rintro (hlong | hmem)
          · omega
          · exact hfresh (hvisited id hmem)
      rw [streamSize, henter', ok_bind]
      cases hinline : c.inlineData id with
      | error e =>
        rw [hinline] at h
        cases h
      | ok inline =>
        rw [hinline, ok_bind] at h
        rw [ok_bind]
        by_cases hsome : inline.isSome = true
        · rw [if_pos hsome] at h ⊢
          exact h
        · rw [if_neg hsome] at h ⊢
          cases hvalue : c.value id "dataStream" with
          | error e =>
            rw [hvalue] at h
            cases h
          | ok target =>
            rw [hvalue, ok_bind] at h
            rw [ok_bind]
            cases target with
            | none => exact h
            | some target =>
              dsimp only at h ⊢
              rw [bind_eq_ok] at h
              obtain ⟨found, hfound, h⟩ := h
              have hrest : ∀ other ∈ id :: visited', other ∈ id :: visited := by
                intro other hother
                rcases List.mem_cons.mp hother with rfl | hold
                · exact List.mem_cons_self
                · exact List.mem_cons_of_mem _ (hvisited other hold)
              rw [ih (by omega) (by simpa using hlength) hrest hfound, ok_bind]
              exact h

/-- A resource has the size of its data stream. -/
theorem size_of_dataStream {target : String} (hinline : c.inlineData id = .ok none)
    (hvalue : c.value id "dataStream" = .ok (some target)) (h : c.size id = .ok size) :
    c.size target = .ok size := by
  rw [Container.size, streamSize, bind_eq_ok] at h
  obtain ⟨visited, -, h⟩ := h
  rw [hinline, ok_bind, if_neg (by simp), hvalue, ok_bind] at h
  dsimp only at h
  rw [bind_eq_ok] at h
  obtain ⟨found, hfound, h⟩ := h
  have hsame : found = size := by
    rw [bind_eq_ok] at h
    obtain ⟨declared, -, h⟩ := h
    by_cases hdeclared : declared.isSome = true
    · rw [if_pos hdeclared] at h
      simp only [bind_eq_ok, pure_eq_ok] at h
      obtain ⟨_, -, _, -, hsize⟩ := h
      exact Except.ok.inj hsize
    · rw [if_neg hdeclared] at h
      exact Except.ok.inj h
  subst hsame
  exact streamSize_mono (by omega) (by simp) (by simp) hfound

/-- Where a turn of `linear_backing` leads: to the data stream, or to the only target of a map. -/
theorem linearNext_eq_some (h : c.linearNext id = .ok (some next)) :
    c.inlineData id = .ok none ∧ (c.value id "dataStream" = .ok (some next) ∨
      c.value id "dataStream" = .ok none ∧ c.hasType id "Map" ∧ ∃ stop gap,
        c.map id = .ok ⟨[⟨0, stop, 0, next⟩], gap⟩ ∧ c.size id = .ok stop ∧
        c.size next = .ok stop) := by
  rw [linearNext, bind_eq_ok] at h
  obtain ⟨inline, hinline, h⟩ := h
  by_cases hsome : inline.isSome = true
  · rw [if_pos hsome] at h
    cases h
  · rw [if_neg hsome, bind_eq_ok] at h
    rw [Option.not_isSome_iff_eq_none] at hsome
    subst hsome
    refine ⟨hinline, ?_⟩
    obtain ⟨target, hvalue, h⟩ := h
    cases target with
    | some target =>
      cases h
      exact .inl hvalue
    | none =>
      refine .inr ⟨hvalue, ?_⟩
      dsimp only at h
      by_cases hmapped : c.hasType id "Map" = true
      · rw [if_pos hmapped, bind_eq_ok] at h
        obtain ⟨map, hmap, h⟩ := h
        obtain ⟨ranges, gap⟩ := map
        rcases ranges with - | ⟨range, - | ⟨range', rest⟩⟩
        · cases h
        · dsimp only at h
          by_cases hidentity : range.start = 0 ∧ range.offset = 0
          · rw [if_pos hidentity, bind_eq_ok] at h
            obtain ⟨size, hsize, h⟩ := h
            by_cases hall : range.stop = size ∧ (c.size range.target).toOption = some range.stop
            · rw [if_pos hall] at h
              cases h
              obtain ⟨start, stop, offset, target⟩ := range
              obtain ⟨hstart, hoffset⟩ := hidentity
              dsimp only at hstart hoffset hall hmap
              subst hstart hoffset
              obtain ⟨rfl, htarget⟩ := hall
              exact ⟨hmapped, stop, gap, hmap, hsize, toOption_eq_some.mp htarget⟩
            · rw [if_neg hall] at h
              cases h
          · rw [if_neg hidentity] at h
            cases h
        · cases h
      · rw [if_neg hmapped] at h
        cases h

/-! ## Bytes along references -/

section Step

variable {depth position : Nat} {behindMap : Bool} {visited visited' : List String}

theorem byteAt_of_enter (henter : enter id visited = .ok visited') (hsymbolic : symbolicByte id = none)
    (hsize : c.size id = .ok size) (hin : position < size) :
    c.byteAt (depth + 1) visited id position =
      c.storedByte (c.byteAt depth visited') id size position := by
  rw [byteAt_of_not_symbolic henter hsymbolic, hsize]
  exact if_pos hin

theorem storedByte_of_dataStream {next : String → Nat → Option UInt8} {target : String}
    (hinline : c.inlineData id = .ok none) (hvalue : c.value id "dataStream" = .ok (some target)) :
    c.storedByte next id size position = c.targetByte next id target size position := by
  unfold storedByte
  rw [hinline]
  change ((c.value id "dataStream").toOption >>= _) = _
  rw [hvalue]
  rfl

theorem storedByte_of_own {next : String → Nat → Option UInt8} (h : c.StoresOwn id) :
    c.storedByte next id size position = c.ownByte next id size position := by
  unfold storedByte
  rw [h.1]
  change ((c.value id "dataStream").toOption >>= _) = _
  rw [h.2]
  rfl

/-- A target has no byte where what is declared of it fails. -/
theorem targetByte_eq_none {next : String → Nat → Option UInt8} {target : String}
    (himage : c.hasType id "ContiguousImage") (hmapped : c.hasType target "Map")
    (h : ¬ ∃ map, c.map target = .ok map ∧ checkContiguous map size = .ok ()) :
    c.targetByte next id target size position = none := by
  unfold targetByte
  rw [if_pos ⟨himage, hmapped⟩]
  cases hmap : c.map target with
  | error e => rfl
  | ok map =>
    change ((checkContiguous map size).toOption >>= _) = none
    cases hcheck : checkContiguous map size with
    | error e => rfl
    | ok u => exact absurd ⟨map, hmap, hcheck⟩ h

/-- A target has the bytes of the resource that it leads to, if what is declared of it holds. -/
theorem targetByte_eq {next : String → Nat → Option UInt8} {target : String}
    (h : c.hasType id "ContiguousImage" → c.hasType target "Map" →
      ∃ map, c.map target = .ok map ∧ checkContiguous map size = .ok ()) :
    c.targetByte next id target size position = next target position := by
  unfold targetByte
  by_cases hcontiguous : c.hasType id "ContiguousImage" ∧ c.hasType target "Map"
  · obtain ⟨map, hmap, hcheck⟩ := h hcontiguous.1 hcontiguous.2
    rw [if_pos hcontiguous, hmap]
    change ((checkContiguous map size).toOption >>= _) = _
    rw [hcheck]
    rfl
  · rw [if_neg hcontiguous]

/-- A resource with one identity range has the bytes of its target. -/
theorem ownByte_of_identity {next : String → Nat → Option UInt8} {gap target : String}
    (hzip : ¬ c.isZipSegment id) (hmapped : c.hasType id "Map")
    (hmap : c.map id = .ok ⟨[⟨0, size, 0, target⟩], gap⟩) (hin : position < size) :
    c.ownByte next id size position = next target position := by
  unfold ownByte
  rw [if_neg hzip, if_pos hmapped, hmap]
  have hplace : ResourceMap.place ⟨[⟨0, size, 0, target⟩], gap⟩ position = (target, position) := by
    unfold ResourceMap.place
    rw [List.find?_cons_of_pos (by simpa using hin)]
    simp
  change next (ResourceMap.place ⟨[⟨0, size, 0, target⟩], gap⟩ position).1 _ = _
  rw [hplace]

theorem not_isZipSegment_of_next (h : c.ResolvedAsRead size behindMap id)
    (hnext : c.linearNext id = .ok (some next)) (hvalue : c.value id "dataStream" = .ok none) :
    ¬ c.isZipSegment id := by
  intro hzip
  have hown : c.StoresOwn id := ⟨(linearNext_eq_some hnext).1, hvalue⟩
  have hends := h.segment hzip hown
  rw [hnext] at hends
  cases hends

/-- Both ends of a reference have one size. -/
theorem size_of_linearNext (hsize : c.size id = .ok size)
    (hnext : c.linearNext id = .ok (some next)) : c.size next = .ok size := by
  obtain ⟨hinline, hvalue | ⟨-, -, stop, -, -, hstop, htarget⟩⟩ := linearNext_eq_some hnext
  · exact size_of_dataStream hinline hvalue hsize
  · rw [hsize, Except.ok.injEq] at hstop
    rw [htarget, hstop]

/-- Why a turn of `linear_backing` fails. -/
theorem linearNext_eq_error {e : Error} (h : c.ResolvedAsRead size behindMap id)
    (hsize : c.size id = .ok size) (herror : c.linearNext id = .error e) :
    (∃ e, c.inlineData id = .error e) ∨
      (c.inlineData id = .ok none ∧ ∃ e, c.value id "dataStream" = .error e) ∨
      (c.StoresOwn id ∧ ¬ c.isZipSegment id ∧ c.hasType id "Map" ∧ ∃ e, c.map id = .error e) := by
  have hends := h.segment
  rw [herror] at hends
  unfold linearNext at herror
  cases hinline : c.inlineData id with
  | error e => exact .inl ⟨e, rfl⟩
  | ok inline =>
    rw [hinline, ok_bind] at herror
    cases inline with
    | some data => cases herror
    | none =>
      rw [if_neg (by simp)] at herror
      cases hvalue : c.value id "dataStream" with
      | error e => exact .inr (.inl ⟨rfl, e, rfl⟩)
      | ok target =>
        rw [hvalue, ok_bind] at herror
        cases target with
        | some target => cases herror
        | none =>
          have hown : c.StoresOwn id := ⟨hinline, hvalue⟩
          have hzip : ¬ c.isZipSegment id := fun hzip => by cases hends hzip hown
          dsimp only at herror
          by_cases hmapped : c.hasType id "Map" = true
          · rw [if_pos hmapped] at herror
            cases hmap : c.map id with
            | error e => exact .inr (.inr ⟨hown, hzip, hmapped, e, rfl⟩)
            | ok map =>
              obtain ⟨ranges, gap⟩ := map
              rw [hmap, ok_bind] at herror
              rcases ranges with - | ⟨range, - | ⟨range', rest⟩⟩
              · cases herror
              · dsimp only at herror
                by_cases hidentity : range.start = 0 ∧ range.offset = 0
                · rw [if_pos hidentity, hsize, ok_bind] at herror
                  by_cases hall : range.stop = size ∧
                      (c.size range.target).toOption = some range.stop
                  · rw [if_pos hall] at herror
                    cases herror
                  · rw [if_neg hall] at herror
                    cases herror
                · rw [if_neg hidentity] at herror
                  cases herror
              · cases herror
          · rw [if_neg hmapped] at herror
            cases herror

/-- Where the resolution fails the resource has no byte. -/
theorem byteAt_of_linearNext_error {e : Error} (h : c.ResolvedAsRead size behindMap id)
    (henter : enter id visited = .ok visited') (hsize : c.size id = .ok size)
    (herror : c.linearNext id = .error e) (hin : position < size) :
    c.byteAt (depth + 1) visited id position = none := by
  rw [byteAt_of_enter henter h.stored hsize hin]
  rcases linearNext_eq_error h hsize herror with
    ⟨e, hinline⟩ | ⟨hinline, e, hvalue⟩ | ⟨hown, hzip, hmapped, e, hmap⟩
  · rw [storedByte, hinline]
    rfl
  · rw [storedByte, hinline]
    change ((c.value id "dataStream").toOption >>= _) = none
    rw [hvalue]
    rfl
  · rw [storedByte_of_own hown, ownByte, if_neg hzip, if_pos hmapped, hmap]
    rfl

/-- A ZIP segment that the resolution ends at stores its data itself. -/
theorem storesOwn_of_segment (h : c.ResolvedAsRead size behindMap id)
    (hnext : c.linearNext id = .ok none) (hzip : c.isZipSegment id) : c.StoresOwn id := by
  rw [linearNext, bind_eq_ok] at hnext
  obtain ⟨inline, hinline, hnext⟩ := hnext
  cases inline with
  | some data => exact absurd hinline (h.inline hzip data)
  | none =>
    rw [if_neg (by simp), bind_eq_ok] at hnext
    obtain ⟨target, hvalue, hnext⟩ := hnext
    cases target with
    | some target => cases hnext
    | none => exact ⟨hinline, hvalue⟩

theorem byteAt_of_segment (h : c.ResolvedAsRead size behindMap id)
    (henter : enter id visited = .ok visited') (hsize : c.size id = .ok size)
    (hnext : c.linearNext id = .ok none) (hzip : c.isZipSegment id) (hin : position < size) :
    c.byteAt (depth + 1) visited id position = c.zipByte id size position := by
  rw [byteAt_of_enter henter h.stored hsize hin,
    storedByte_of_own (storesOwn_of_segment h hnext hzip), ownByte, if_pos hzip]

end Step

/-! ## Opening without reading -/

section Opening

variable {depth position : Nat} {visited visited' : List String}

theorem eval_readInner_zero (henter : enter id visited = .ok visited')
    (hsymbolic : symbolicByte id = none) (hsize : c.size id = .ok size) :
    (c.readInner false (depth + 1) visited id 0 0).eval c.answer =
      (c.readStored (c.readInner false depth visited') false id size 0 0).eval c.answer := by
  rw [readInner, Program.eval_bind, Program.eval_lift, henter, ok_bind, hsymbolic]
  dsimp only
  unfold refuseIf
  rw [Program.eval_bind, Program.eval_lift, hsize, ok_bind, Program.eval_bind, Program.eval_lift,
    rejectIf_neg, ok_bind]
  rw [Word.checkedAdd_of_lt (by decide)]
  simp

theorem eval_readStored_target {read : String → Nat → Nat → c.Reading Bytes} {target : String}
    (hinline : c.inlineData id = .ok none) (hvalue : c.value id "dataStream" = .ok (some target)) :
    (c.readStored read false id size 0 0).eval c.answer =
      (c.readTarget read id target size 0 0).eval c.answer := by
  rw [readStored, Program.eval_bind, Program.eval_lift, hinline, ok_bind]
  dsimp only
  rw [Program.eval_bind, Program.eval_lift, hvalue, ok_bind]

theorem eval_readStored_own {read : String → Nat → Nat → c.Reading Bytes} (h : c.StoresOwn id) :
    (c.readStored read false id size 0 0).eval c.answer =
      (c.readOwn read false id size 0 0).eval c.answer := by
  rw [readStored, Program.eval_bind, Program.eval_lift, h.1, ok_bind]
  dsimp only
  rw [Program.eval_bind, Program.eval_lift, h.2, ok_bind]

/-- What is declared of a data stream holds, and the stream can be opened. -/
theorem Opens.target {target : String} (h : c.Opens (depth + 1) visited id)
    (henter : enter id visited = .ok visited') (hsymbolic : symbolicByte id = none)
    (hsize : c.size id = .ok size) (hinline : c.inlineData id = .ok none)
    (hvalue : c.value id "dataStream" = .ok (some target)) :
    c.Opens depth visited' target ∧ (c.hasType id "ContiguousImage" → c.hasType target "Map" →
      ∃ map, c.map target = .ok map ∧ checkContiguous map size = .ok ()) := by
  obtain ⟨bytes, hbytes⟩ := h
  rw [eval_readInner_zero henter hsymbolic hsize, eval_readStored_target hinline hvalue,
    readTarget, Program.eval_ite] at hbytes
  by_cases hcontiguous : c.hasType id "ContiguousImage" ∧ c.hasType target "Map"
  · rw [if_pos hcontiguous, Program.eval_bind] at hbytes
    change (c.map target >>= _) = _ at hbytes
    rw [bind_eq_ok] at hbytes
    obtain ⟨map, hmap, hbytes⟩ := hbytes
    rw [Program.eval_bind, Program.eval_lift, bind_eq_ok] at hbytes
    obtain ⟨u, hcheck, hbytes⟩ := hbytes
    exact ⟨⟨bytes, hbytes⟩, fun _ _ => ⟨map, hmap, hcheck⟩⟩
  · rw [if_neg hcontiguous] at hbytes
    exact ⟨⟨bytes, hbytes⟩, fun himage hmap => absurd ⟨himage, hmap⟩ hcontiguous⟩

/-- The member of a ZIP segment that can be opened, or the map of another resource. -/
theorem Opens.own (h : c.Opens (depth + 1) visited id) (henter : enter id visited = .ok visited')
    (hsymbolic : symbolicByte id = none) (hsize : c.size id = .ok size) (hown : c.StoresOwn id) :
    (c.isZipSegment id → ∃ path file contents, c.path id = .ok path ∧
      c.archive.byName path = .ok (file, contents) ∧ file.size = size ∧
      (size = 0 → contents.hasMore 0 = .ok false)) ∧
    (¬ c.isZipSegment id → c.hasType id "Map" → ∃ map, c.map id = .ok map) := by
  obtain ⟨bytes, hbytes⟩ := h
  rw [eval_readInner_zero henter hsymbolic hsize, eval_readStored_own hown, readOwn,
    Program.eval_ite] at hbytes
  refine ⟨fun hzip => ?_, fun hzip hmapped => ?_⟩
  · rw [if_pos hzip, Program.eval_lift, readZipSegment, bind_eq_ok] at hbytes
    obtain ⟨path, hpath, hbytes⟩ := hbytes
    rw [bind_eq_ok] at hbytes
    obtain ⟨⟨file, contents⟩, hname, hbytes⟩ := hbytes
    dsimp only at hbytes
    rw [bind_eq_ok] at hbytes
    obtain ⟨_, hsame, hbytes⟩ := hbytes
    rw [rejectIf_eq_ok, not_not] at hsame
    refine ⟨path, file, contents, hpath, hname, hsame, fun hzero => ?_⟩
    rw [bind_eq_ok] at hbytes
    obtain ⟨_, -, hbytes⟩ := hbytes
    rw [if_pos (by omega), bind_eq_ok] at hbytes
    obtain ⟨more, hmore, hbytes⟩ := hbytes
    rw [hzero] at hmore
    cases more with
    | true => cases hbytes
    | false => exact hmore
  · rw [if_neg hzip, Program.eval_ite, if_pos hmapped, Program.eval_bind] at hbytes
    change (c.map id >>= _) = _ at hbytes
    rw [bind_eq_ok] at hbytes
    obtain ⟨map, hmap, -⟩ := hbytes
    exact ⟨map, hmap⟩

/-- The resolution of a resource that can be opened does not fail. -/
theorem linearNext_ne_error {behindMap : Bool} {e : Error} (h : c.ResolvedAsRead size behindMap id)
    (hopens : c.Opens (depth + 1) visited id) (henter : enter id visited = .ok visited')
    (hsize : c.size id = .ok size) : c.linearNext id ≠ .error e := by
  intro herror
  rcases linearNext_eq_error h hsize herror with
    ⟨e, hinline⟩ | ⟨hinline, e, hvalue⟩ | ⟨hown, hzip, hmapped, e, hmap⟩
  · obtain ⟨bytes, hbytes⟩ := hopens
    rw [eval_readInner_zero henter h.stored hsize, readStored, Program.eval_bind,
      Program.eval_lift, hinline] at hbytes
    cases hbytes
  · obtain ⟨bytes, hbytes⟩ := hopens
    rw [eval_readInner_zero henter h.stored hsize, readStored, Program.eval_bind,
      Program.eval_lift, hinline, ok_bind] at hbytes
    dsimp only at hbytes
    rw [Program.eval_bind, Program.eval_lift, hvalue] at hbytes
    cases hbytes
  · obtain ⟨map, hmap'⟩ := (hopens.own henter h.stored hsize hown).2 hzip hmapped
    rw [hmap] at hmap'
    cases hmap'

/-- A resource with a byte is symbolic, or stores the byte at an address inside it. -/
theorem stored_of_byteAt {byte : UInt8} (h : c.byteAt (depth + 1) visited id position = some byte) :
    symbolicByte id = some (.ok byte) ∨ symbolicByte id = none ∧ ∃ size, c.size id = .ok size ∧
      position < size ∧ c.storedByte (c.byteAt depth (id :: visited)) id size position = some byte := by
  have henter := enter_of_byteAt h
  cases hsymbolic : symbolicByte id with
  | some symbolic =>
    rw [byteAt_of_symbolic henter hsymbolic] at h
    exact .inl (by rw [toOption_eq_some.mp h])
  | none =>
    rw [byteAt_of_not_symbolic henter hsymbolic] at h
    obtain ⟨size, hsize, hstored⟩ := Option.bind_eq_some_iff.mp h
    have hin : position < size := by
      by_contra hout
      rw [if_neg hout] at hstored
      cases hstored
    rw [if_pos hin] at hstored
    exact .inr ⟨rfl, size, toOption_eq_some.mp hsize, hin, hstored⟩

section Stored

variable {read : String → Nat → Nat → c.Reading Bytes} {next : String → Nat → Option UInt8}
  {byte : UInt8} (hread : ∀ target position byte, next target position = some byte →
    ∃ bytes, (read target 0 0).eval c.answer = .ok bytes)

include hread in
theorem opens_of_targetByte {target : String}
    (h : c.targetByte next id target size position = some byte) :
    ∃ bytes, (c.readTarget read id target size 0 0).eval c.answer = .ok bytes := by
  rw [targetByte] at h
  rw [readTarget, Program.eval_ite]
  by_cases hcontiguous : c.hasType id "ContiguousImage" ∧ c.hasType target "Map"
  · rw [if_pos hcontiguous] at h ⊢
    obtain ⟨map, hmap, h⟩ := Option.bind_eq_some_iff.mp h
    obtain ⟨u, hcheck, h⟩ := Option.bind_eq_some_iff.mp h
    rw [toOption_eq_some] at hmap hcheck
    rw [Program.eval_bind]
    change ∃ bytes, (c.map target >>= _) = _
    rw [hmap, ok_bind, Program.eval_bind, Program.eval_lift, hcheck]
    exact hread target position byte h
  · rw [if_neg hcontiguous] at h ⊢
    exact hread target position byte h

theorem opens_of_zipByte (h : c.zipByte id size position = some byte) (hin : position < size) :
    ∃ bytes, c.readZipSegment id size 0 0 = .ok bytes := by
  unfold zipByte at h
  obtain ⟨path, hpath, h⟩ := Option.bind_eq_some_iff.mp h
  obtain ⟨⟨file, contents⟩, hname, h⟩ := Option.bind_eq_some_iff.mp h
  obtain ⟨_, hguard, h⟩ := Option.bind_eq_some_iff.mp h
  rw [toOption_eq_some] at hpath hname
  have hfile : file.size = size := by
    by_contra hne
    rw [guard, if_neg hne] at hguard
    cases hguard
  refine ⟨[], ?_⟩
  rw [readZipSegment, hpath, ok_bind, hname, ok_bind]
  dsimp only
  rw [rejectIf_neg _ (not_not.mpr hfile), ok_bind, if_pos (Nat.zero_le _),
    ByteStream.readExact, if_pos (Nat.zero_le _), ok_bind, if_neg (by omega), Slice.slice_zero]
  rfl

theorem opens_of_ownByte (h : c.ownByte next id size position = some byte)
    (hin : position < size) :
    ∃ bytes, (c.readOwn read false id size 0 0).eval c.answer = .ok bytes := by
  rw [ownByte] at h
  rw [readOwn, Program.eval_ite]
  by_cases hzip : c.isZipSegment id = true
  · rw [if_pos hzip] at h ⊢
    exact opens_of_zipByte h hin
  · rw [if_neg hzip] at h ⊢
    rw [Program.eval_ite]
    by_cases hmapped : c.hasType id "Map" = true
    · rw [if_pos hmapped] at h ⊢
      obtain ⟨map, hmap, -⟩ := Option.bind_eq_some_iff.mp h
      rw [toOption_eq_some] at hmap
      refine ⟨[], ?_⟩
      rw [Program.eval_bind]
      change (c.map id >>= _) = _
      rw [hmap]
      rfl
    · rw [if_neg hmapped] at h ⊢
      by_cases hstream : c.hasType id "ImageStream" = true
      · rw [if_pos hstream] at h
        obtain ⟨stream, hopen, -⟩ := Option.bind_eq_some_iff.mp h
        rw [toOption_eq_some] at hopen
        refine ⟨[], ?_⟩
        unfold refuseIf
        rw [Program.eval_bind, Program.eval_lift, rejectIf_neg _ (not_not.mpr hstream), ok_bind,
          Program.eval_bind, Program.eval_lift, hopen]
        rfl
      · rw [if_neg hstream] at h
        cases h

include hread in
theorem opens_of_storedByte (h : c.storedByte next id size position = some byte)
    (hin : position < size) :
    ∃ bytes, (c.readStored read false id size 0 0).eval c.answer = .ok bytes := by
  cases hinline : c.inlineData id with
  | error e =>
    rw [storedByte, hinline] at h
    cases h
  | ok inline =>
    cases inline with
    | some data =>
      refine ⟨[], ?_⟩
      rw [readStored, Program.eval_bind, Program.eval_lift, hinline]
      exact congrArg Except.ok (Slice.slice_zero data 0)
    | none =>
      cases hvalue : c.value id "dataStream" with
      | error e =>
        rw [storedByte, hinline] at h
        change ((c.value id "dataStream").toOption >>= _) = _ at h
        rw [hvalue] at h
        cases h
      | ok target =>
        cases target with
        | some target =>
          rw [storedByte_of_dataStream hinline hvalue] at h
          rw [eval_readStored_target hinline hvalue]
          exact opens_of_targetByte hread h
        | none =>
          have hown : c.StoresOwn id := ⟨hinline, hvalue⟩
          rw [storedByte_of_own hown] at h
          rw [eval_readStored_own hown]
          exact opens_of_ownByte h hin

end Stored

/-- A resource with a byte can be opened. -/
theorem opens_of_byteAt {byte : UInt8} (h : c.byteAt depth visited id position = some byte) :
    c.Opens depth visited id := by
  induction depth generalizing visited id position byte with
  | zero => cases h
  | succ depth ih =>
    have henter := enter_of_byteAt h
    rcases stored_of_byteAt h with hsymbolic | ⟨hsymbolic, size, hsize, hin, hstored⟩
    · refine ⟨[], ?_⟩
      rw [readInner, Program.eval_bind, Program.eval_lift, henter, ok_bind, hsymbolic]
      rfl
    · unfold Opens
      rw [eval_readInner_zero henter hsymbolic hsize]
      exact opens_of_storedByte (fun target position byte hbyte => ih hbyte) hstored hin

end Opening

/-! ## Bytes of the backing -/

section Backing

variable {depth : Nat} {behindMap : Bool} {visited visited' : List String} {target : String}
  {f g : Nat → Option UInt8} {opened : Result (Option ByteStream)}

theorem agrees_congr (h : ∀ i, i < size → f i = g i) : Agrees f size opened ↔ Agrees g size opened := by
  have hnone : (∃ i, i < size ∧ f i = none) ↔ ∃ i, i < size ∧ g i = none :=
    exists_congr fun i => and_congr_right fun hi => by rw [h i hi]
  rcases opened with e | - | contents
  · exact hnone
  · exact Iff.rfl
  · simp only [Agrees]
    by_cases hlong : size ≤ contents.output.length
    · rw [if_pos hlong, if_pos hlong]
      exact and_congr_right fun _ => forall_congr' fun i => imp_congr_right fun hi => by rw [h i hi]
    · rw [if_neg hlong, if_neg hlong]
      exact hnone

/-- A resource that is resolved otherwise has the bytes that are held there. -/
theorem byteAt_of_not_resolved (h : ¬ c.ResolvedAsRead size behindMap id)
    (henter : enter id visited = .ok visited') (hsize : c.size id = .ok size) {position : Nat}
    (hin : position < size) :
    c.byteAt (depth + 1) visited id position = c.heldByte id size position := by
  unfold heldByte
  cases hsymbolic : symbolicByte id with
  | some byte => exact byteAt_of_symbolic henter hsymbolic
  | none =>
    rw [byteAt_of_enter henter hsymbolic hsize hin]
    dsimp only
    cases hinline : c.inlineData id with
    | error e =>
      rw [storedByte, hinline]
      rfl
    | ok inline =>
      cases inline with
      | some data =>
        rw [storedByte, hinline]
        rfl
      | none =>
        cases hvalue : c.value id "dataStream" with
        | error e =>
          rw [storedByte, hinline]
          change ((c.value id "dataStream").toOption >>= _) = none
          rw [hvalue]
          rfl
        | ok next =>
          cases next with
          | some next =>
            -- only the declaration of a contiguous image is left to fail
            rw [storedByte_of_dataStream hinline hvalue]
            change c.targetByte _ id next size position = none
            have hdeclared : c.hasType id "ContiguousImage" ∧ c.hasType next "Map" ∧
                ¬ ∃ map, c.map next = .ok map ∧ checkContiguous map size = .ok () := by
              by_contra hnot
              refine h ⟨hsymbolic, ?_, ?_, ?_, ?_⟩
              · rintro - ⟨-, hnone⟩
                rw [hvalue] at hnone
                cases hnone
              · intro _ data hsome
                rw [hinline] at hsome
                cases hsome
              · rintro - ⟨-, hnone⟩
                rw [hvalue] at hnone
                cases hnone
              · intro _ target htarget himage hmap
                rw [hvalue, Except.ok.injEq, Option.some.injEq] at htarget
                subst htarget
                by_contra hfails
                exact hnot ⟨himage, hmap, hfails⟩
            exact targetByte_eq_none hdeclared.1 hdeclared.2.1 hdeclared.2.2
          | none =>
            have hown : c.StoresOwn id := ⟨hinline, hvalue⟩
            have hzip : c.isZipSegment id := by
              by_contra hnot
              refine h ⟨hsymbolic, fun hzip => absurd hzip hnot, fun hzip => absurd hzip hnot,
                fun hzip => absurd hzip hnot, fun _ target htarget => ?_⟩
              rw [hvalue] at htarget
              cases htarget
            rw [storedByte_of_own hown, ownByte, if_pos hzip]
            rfl

/-- A member that ends behind the declared size is what the traversal decodes. -/
theorem agrees_of_segment (h : c.ResolvedAsRead size behindMap id) (hzip : c.isZipSegment id)
    (hown : c.StoresOwn id) (hempty : size = 0 → ∃ path file contents, c.path id = .ok path ∧
      c.archive.byName path = .ok (file, contents) ∧ file.size = size ∧
      contents.hasMore 0 = .ok false) :
    Agrees (c.zipByte id size) size (c.openBacking size (.ok id)) := by
  have hundefined : (∀ path file contents, c.path id = .ok path →
      c.archive.byName path = .ok (file, contents) → file.size ≠ size) →
      ∃ i, i < size ∧ c.zipByte id size i = none := by
    intro hnone
    refine ⟨0, ?_, zipByte_eq_none hnone⟩
    by_contra hzero
    obtain ⟨path, file, contents, hpath, hname, hfile, -⟩ := hempty (by omega)
    exact hnone path file contents hpath hname hfile
  rw [openBacking, ok_bind, if_pos hzip]
  cases hpath : c.path id with
  | error e =>
    refine hundefined fun path _ _ hok => ?_
    rw [hpath] at hok
    cases hok
  | ok path =>
    rw [ok_bind]
    cases hname : c.archive.byName path with
    | error e =>
      refine hundefined fun path' _ _ hok hopened => ?_
      rw [hpath, Except.ok.injEq] at hok
      rw [← hok, hname] at hopened
      cases hopened
    | ok found =>
      obtain ⟨file, contents⟩ := found
      rw [ok_bind]
      dsimp only
      unfold refuseIf
      by_cases hsame : file.size = size
      · have hbyte := zipByte_of_opened hpath hname hsame
        rw [rejectIf_neg _ (not_not.mpr hsame), ok_bind]
        simp only [pure_eq_ok, Agrees]
        by_cases hlong : size ≤ contents.output.length
        · have hends := h.ends hzip hown path file contents hpath hname hsame hlong
          rw [if_pos hlong]
          exact ⟨hends, fun i _ => by rw [hbyte, if_pos fun _ => hends]⟩
        · rw [if_neg hlong]
          refine ⟨contents.output.length, by omega, ?_⟩
          rw [hbyte, List.getElem?_eq_none (Nat.le_refl _), ite_self]
      · rw [rejectIf_pos _ hsame]
        refine hundefined fun path' file' _ hok hopened => ?_
        rw [hpath, Except.ok.injEq] at hok
        rw [← hok, hname, Except.ok.injEq] at hopened
        cases hopened
        exact hsame

/-- Where the way of a traversal leads on as a read does, the byte of a resource is that of the
next one. -/
theorem byteAt_of_next (h : c.ResolvedAsRead size behindMap id)
    (hnext : c.linearNext id = .ok (some next)) (henter : enter id visited = .ok visited')
    (hsize : c.size id = .ok size) (hopens : behindMap = false → c.Opens (depth + 1) visited id)
    {position : Nat} (hin : position < size) :
    c.byteAt (depth + 1) visited id position = c.byteAt depth visited' next position := by
  rw [byteAt_of_enter henter h.stored hsize hin]
  obtain ⟨hinline, hvalue | ⟨hvalue, hmapped, stop, gap, hmap, hstop, -⟩⟩ :=
    linearNext_eq_some hnext
  · have hdeclared : c.hasType id "ContiguousImage" → c.hasType next "Map" →
        ∃ map, c.map next = .ok map ∧ checkContiguous map size = .ok () := by
      cases behindMap with
      | true => exact h.contiguous rfl next hvalue
      | false => exact ((hopens rfl).target henter h.stored hsize hinline hvalue).2
    rw [storedByte_of_dataStream hinline hvalue, targetByte_eq hdeclared]
  · rw [hsize, Except.ok.injEq] at hstop
    subst hstop
    rw [storedByte_of_own ⟨hinline, hvalue⟩,
      ownByte_of_identity (not_isZipSegment_of_next h hnext hvalue) hmapped hmap hin]

/-- The rest of the way can be opened as well, unless it is behind a map, which is not empty. -/
theorem opens_of_next (h : c.ResolvedAsRead size behindMap id)
    (hnext : c.linearNext id = .ok (some next)) (henter : enter id visited = .ok visited')
    (hsize : c.size id = .ok size) (hopens : behindMap = false → c.Opens (depth + 1) visited id)
    (hpos : behindMap = true → 0 < size) :
    ((behindMap || decide (c.value id "dataStream" = .ok none)) = false → c.Opens depth visited' next) ∧
      ((behindMap || decide (c.value id "dataStream" = .ok none)) = true → 0 < size) := by
  obtain ⟨hinline, hvalue | ⟨hvalue, -, stop, gap, hmap, hstop, -⟩⟩ := linearNext_eq_some hnext
  · have hdirect : (behindMap || decide (c.value id "dataStream" = .ok none)) = behindMap := by
      rw [hvalue]
      simp
    rw [hdirect]
    exact ⟨fun hfalse => ((hopens hfalse).target henter h.stored hsize hinline hvalue).1, hpos⟩
  · rw [hsize, Except.ok.injEq] at hstop
    subst hstop
    obtain ⟨_, -, hranges⟩ := map_spec hmap
    refine ⟨fun hfalse => ?_, fun _ => hranges.nonempty _ (List.mem_singleton_self _)⟩
    rw [hvalue] at hfalse
    simp at hfalse

/-- A traversal delivers the bytes of a resource exactly when the way to its backing is
straight. -/
theorem straight_iff (hsize : c.size id = .ok size)
    (hopens : behindMap = false → c.Opens depth visited id) (hpos : behindMap = true → 0 < size) :
    c.Straight size depth behindMap visited id ↔
      Agrees (c.byteAt depth visited id) size (c.openBacking size (c.backing depth visited id)) := by
  induction depth generalizing behindMap visited id with
  | zero =>
    refine iff_of_true trivial ⟨0, ?_, rfl⟩
    cases behindMap with
    | true => exact hpos rfl
    | false =>
      obtain ⟨_, hbytes⟩ := hopens rfl
      cases hbytes
  | succ depth ih =>
    cases henter : enter id visited with
    | error e =>
      have hclosed : ¬ c.Opens (depth + 1) visited id := by
        rintro ⟨_, hbytes⟩
        rw [readInner, Program.eval_bind, Program.eval_lift, henter] at hbytes
        cases hbytes
      refine iff_of_true (fun visited' hentered => ?_) ?_
      · rw [henter] at hentered
        cases hentered
      · rw [backing, henter]
        refine ⟨0, ?_, ?_⟩
        · cases behindMap with
          | true => exact hpos rfl
          | false => exact absurd (hopens rfl) hclosed
        · rw [byteAt_succ, henter]
          rfl
    | ok visited' =>
      by_cases hresolved : c.ResolvedAsRead size behindMap id
      · have hstraight : c.Straight size (depth + 1) behindMap visited id ↔
            ∀ next, c.linearNext id = .ok (some next) → c.Straight size depth
              (behindMap || decide (c.value id "dataStream" = .ok none)) visited' next := by
          constructor
          · exact fun hway => (hway visited' henter).1 hresolved
          · intro hway entered hentered
            rw [henter, Except.ok.injEq] at hentered
            subst hentered
            exact ⟨fun _ => hway, fun hnot => absurd hresolved hnot⟩
        rw [hstraight, backing, henter, ok_bind]
        cases hnext : c.linearNext id with
        | error e =>
          have hsome : 0 < size := by
            cases behindMap with
            | true => exact hpos rfl
            | false => exact absurd hnext (linearNext_ne_error hresolved (hopens rfl) henter hsize)
          exact iff_of_true (fun next hnone => by cases hnone)
            ⟨0, hsome, byteAt_of_linearNext_error hresolved henter hsize hnext hsome⟩
        | ok found =>
          rw [ok_bind]
          cases found with
          | none =>
            refine iff_of_true (fun next hsome => by cases hsome) ?_
            by_cases hzip : c.isZipSegment id = true
            · have hown := storesOwn_of_segment hresolved hnext hzip
              refine (agrees_congr fun i hi =>
                byteAt_of_segment hresolved henter hsize hnext hzip hi).mpr ?_
              refine agrees_of_segment hresolved hzip hown fun hzero => ?_
              cases behindMap with
              | true => exact absurd (hpos rfl) (by omega)
              | false =>
                obtain ⟨path, file, contents, hpath, hname, hfile, hends⟩ :=
                  ((hopens rfl).own henter hresolved.stored hsize hown).1 hzip
                exact ⟨path, file, contents, hpath, hname, hfile, hends hzero⟩
            · change Agrees _ size (openBacking c size (.ok id))
              rw [openBacking, ok_bind, if_neg hzip]
              trivial
          | some next =>
            obtain ⟨hopens', hpos'⟩ := opens_of_next hresolved hnext henter hsize hopens hpos
            have hrest := ih (size_of_linearNext hsize hnext) hopens' hpos'
            rw [agrees_congr fun i hi => byteAt_of_next hresolved hnext henter hsize hopens hi,
              ← hrest]
            constructor
            · exact fun hway => hway next rfl
            · intro hway next' hsome
              cases hsome
              exact hway
      · rw [agrees_congr fun i hi => byteAt_of_not_resolved hresolved henter hsize hi]
        constructor
        · exact fun hway => (hway visited' henter).2 hresolved
        · exact fun hagrees entered _ => ⟨fun hyes => absurd hyes hresolved, fun _ => hagrees⟩

end Backing

end Container

end EwfImage.Aff4

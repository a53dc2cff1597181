import EwfImage.Aff4.Coherent
import EwfImage.Lib.Delivery

/-!
# What a resource denotes

Without caches a resource is a partial store of bytes: the byte at an address is found by
following the references of the graph for that address alone. A read delivers this store:
it returns the bytes of its range, and fails exactly when one of them is undefined.

The main result is `delivers_readInner`. `byteAt` follows at most as many references as a read
does, and leaves a byte undefined when a reference comes back to a resource that is being
followed. The byte of a map is that of the range that contains the address, or of the gap there;
`mapTarget_of_map` connects it with the search of the reader. The decoders are those of the
container.
-/

namespace EwfImage.Aff4

open ByteStore Delivery Fallible Queries Slice Std Word

theorem parseDigits_lt {digit : Char → Option Nat} {radix limit n : Nat} {text : List Char}
    (h : parseDigits digit radix limit text = some n) : n < limit := by
  have hfold : ∀ (digits : List Char) (start : Nat), digits ≠ [] →
      digits.foldlM (fun value c => do
        let value := value * radix + (← digit c)
        guard (value < limit)
        return value) start = some n → n < limit := by
    intro digits
    induction digits with
    | nil => exact fun _ hne => absurd rfl hne
    | cons c rest ih =>
      intro start _ hrun
      simp only [List.foldlM_cons, Option.bind_eq_bind, Option.bind_eq_some_iff] at hrun
      obtain ⟨_, ⟨d, -, _, hguard, hpure⟩, hrest⟩ := hrun
      cases hpure
      have hlt : start * radix + d < limit := by
        by_contra hge
        simp [guard, hge] at hguard
      cases rest with
      | nil =>
        have hn : start * radix + d = n := Option.some.inj hrest
        exact hn ▸ hlt
      | cons c' rest => exact ih _ (List.cons_ne_nil _ _) hrest
  unfold parseDigits at h
  split at h
  all_goals
    dsimp only at h
    split at h
    · cases h
    · exact hfold _ _ ‹_› h

/-- Where a map leads from an address: through the range that contains the address, or, if none
does, to the same address of the gap. -/
def ResourceMap.place (map : ResourceMap) (position : Nat) : String × Nat :=
  (map.ranges.find? fun range => range.start ≤ position ∧ position < range.stop).elim
    (map.gap, position) fun range => (range.target, range.offset + (position - range.start))

namespace Container

variable {c : Container} {id : String}

theorem number_lt {key : String} {n : Nat} (h : c.number id key = .ok n) : n < u64Limit := by
  simp only [number, bind_eq_ok, okOr_eq_ok] at h
  obtain ⟨_, _, _, _, hparse⟩ := h
  exact parseDigits_lt hparse

theorem inlineStep_spec {result result' : Option Bytes} {p : Property}
    (h : c.inlineStep id result p = .ok result') :
    ∃ bytes, result' = some bytes ∧ c.number id "size" = .ok bytes.length := by
  simp only [inlineStep, bind_eq_ok, rejectIf_eq_ok, pure_eq_ok] at h
  obtain ⟨_, -, bytes, -, _, -, size, hsize, _, hlength, _, -, hresult⟩ := h
  cases hresult
  rw [not_not] at hlength
  exact ⟨bytes, rfl, hlength ▸ hsize⟩

/-- Inline data has the declared size. -/
theorem number_of_inlineData {data : Bytes} (h : c.inlineData id = .ok (some data)) :
    c.number id "size" = .ok data.length := by
  simp only [inlineData, bind_eq_ok, rejectIf_eq_ok, pure_eq_ok] at h
  obtain ⟨result, hrun, _, -, hresult⟩ := h
  cases hresult
  have hkept : ∀ bytes, some data = some bytes → c.number id "size" = .ok bytes.length := by
    refine foldlM_invariant (I := fun result => ∀ bytes, result = some bytes →
      c.number id "size" = .ok bytes.length) (fun start p result _ _ hstep bytes hbytes => ?_)
      (fun _ hbytes => by cases hbytes) hrun
    obtain ⟨bytes', hbytes', hsize⟩ := inlineStep_spec hstep
    rw [hbytes] at hbytes'
    cases hbytes'
    exact hsize
  exact hkept data rfl

theorem size_of_inlineData {data : Bytes} (h : c.inlineData id = .ok (some data)) :
    c.size id = .ok data.length := by
  unfold size streamSize
  rw [h]
  exact number_of_inlineData h

/-- A resource without inline data and target has the size that is declared for it. -/
theorem size_eq_number (hinline : c.inlineData id = .ok none)
    (hvalue : c.value id "dataStream" = .ok none) : c.size id = c.number id "size" := by
  unfold size streamSize
  rw [hinline]
  simp only [enter, List.length_nil, List.not_mem_nil, or_false, ok_bind, hvalue]
  rfl

theorem size_lt {size : Nat} (h : c.size id = .ok size) : size < u64Limit := by
  have hstream : ∀ depth visited id size,
      c.streamSize depth visited id = .ok size → size < u64Limit := by
    intro depth
    induction depth with
    | zero => exact fun _ _ _ hzero => by cases hzero
    | succ depth ih =>
      intro visited id size hsize
      simp only [streamSize, bind_eq_ok] at hsize
      obtain ⟨visited', -, inline, -, hsize⟩ := hsize
      split at hsize
      · exact number_lt hsize
      · rw [bind_eq_ok] at hsize
        obtain ⟨target, -, hsize⟩ := hsize
        cases target with
        | none => exact number_lt hsize
        | some target =>
          simp only [bind_eq_ok] at hsize
          obtain ⟨size', hsize', declared, -, hsize⟩ := hsize
          have hlt := ih visited' target size' hsize'
          by_cases hdeclared : declared.isSome = true
          · rw [if_pos hdeclared] at hsize
            simp only [bind_eq_ok, pure_eq_ok] at hsize
            obtain ⟨_, -, _, -, hsize⟩ := hsize
            cases hsize
            exact hlt
          · rw [if_neg hdeclared] at hsize
            cases hsize
            exact hlt
  exact hstream _ _ _ _ h

/-! ## Maps -/

/-- Ranges in order inside a resource, none of them empty. -/
structure OrderedRanges (size : Nat) (ranges : List MapRange) : Prop where
  ordered : ranges.Pairwise fun range next => range.stop ≤ next.start
  nonempty : ∀ range ∈ ranges, range.start < range.stop
  stop_le : ∀ range ∈ ranges, range.stop ≤ size
  target : ∀ range ∈ ranges, range.offset + (range.stop - range.start) < u64Limit

theorem stop_le_of_getLast {size : Nat} {ranges : List MapRange} (h : OrderedRanges size ranges)
    {range : MapRange} (hmem : range ∈ ranges) :
    range.stop ≤ (ranges.getLast?.map MapRange.stop).getD 0 := by
  have hne : ranges ≠ [] := List.ne_nil_of_mem hmem
  rw [List.getLast?_eq_some_getLast hne]
  change range.stop ≤ (ranges.getLast hne).stop
  have hsplit := List.dropLast_append_getLast hne
  have hordered := h.ordered
  rw [← hsplit, List.pairwise_append] at hordered
  rw [← hsplit, List.mem_append, List.mem_singleton] at hmem
  rcases hmem with hinit | rfl
  · have hbefore := hordered.2.2 range hinit _ (List.mem_singleton_self _)
    have hlast := h.nonempty _ (List.getLast_mem hne)
    omega
  · exact Nat.le_refl _

theorem mapRecord_spec {targets : List String} {size : Nat} {before after : List MapRange × Nat}
    {record : Bytes} (h : c.mapRecord targets size before record = .ok after)
    (hbefore : OrderedRanges size before.1) : OrderedRanges size after.1 := by
  simp only [mapRecord, bind_eq_ok, okOr_eq_ok, rejectIf_eq_ok, checkedAdd_eq_some,
    pure_eq_ok] at h
  obtain ⟨stop, ⟨-, rfl⟩, _, hchecks, target, -, _, -, hafter⟩ := h
  cases hafter
  simp only [not_or] at hchecks
  obtain ⟨hlength, hprevious, hsize, hoverflow⟩ := hchecks
  have hfits : leAt record 16 8 + leAt record 8 8 < u64Limit := by
    by_contra hge
    exact hoverflow (by simp [checkedAdd, hge])
  refine ⟨?_, ?_, ?_, ?_⟩
  · rw [List.pairwise_append]
    refine ⟨hbefore.ordered, List.pairwise_singleton _ _, fun range hrange next hnext => ?_⟩
    rw [List.mem_singleton] at hnext
    subst hnext
    have hle := stop_le_of_getLast hbefore hrange
    dsimp only
    omega
  all_goals
    intro range hrange
    rw [List.mem_append, List.mem_singleton] at hrange
    rcases hrange with hold | rfl
  · exact hbefore.nonempty range hold
  · dsimp only
    omega
  · exact hbefore.stop_le range hold
  · dsimp only
    omega
  · exact hbefore.target range hold
  · dsimp only
    rw [Nat.add_sub_cancel_left]
    exact hfits

theorem mapRanges_spec {ranges : List MapRange} (h : c.mapRanges id = .ok ranges) :
    ∃ size, c.number id "size" = .ok size ∧ OrderedRanges size ranges := by
  simp only [mapRanges, bind_eq_ok, pure_eq_ok] at h
  obtain ⟨_, -, data, -, index, -, _, -, _, -, _, -, size, hsize, result, hrun, hranges⟩ := h
  cases hranges
  refine ⟨size, hsize, ?_⟩
  refine foldlM_invariant (I := fun ranges => OrderedRanges size ranges.1)
    (fun before record after hbefore _ hstep => mapRecord_spec hstep hbefore) ?_ hrun
  refine ⟨List.Pairwise.nil, ?_, ?_, ?_⟩
  all_goals
    intro _ hnil
    exact absurd hnil List.not_mem_nil

theorem map_spec {map : ResourceMap} (h : c.map id = .ok map) :
    ∃ size, c.number id "size" = .ok size ∧ OrderedRanges size map.ranges := by
  simp only [Container.map, bind_eq_ok, pure_eq_ok] at h
  obtain ⟨ranges, hranges, gap, -, hmap⟩ := h
  cases hmap
  exact mapRanges_spec hranges

/-- The first item with a property is the first with a stronger one that it has, too. -/
theorem find?_of_imp {α : Type} {p q : α → Bool} {xs : List α} {a : α}
    (hfind : xs.find? p = some a) (hq : q a = true) (himp : ∀ x, q x = true → p x = true) :
    xs.find? q = some a := by
  rw [List.find?_eq_some_iff_append] at hfind ⊢
  obtain ⟨-, before, after, hsplit, hbefore⟩ := hfind
  refine ⟨hq, before, after, hsplit, fun x hx => ?_⟩
  have hnot := hbefore x hx
  cases hqx : q x with
  | false => rfl
  | true =>
    rw [himp x hqx] at hnot
    cases hnot

/-- The search for the first range that ends behind a position finds the one that contains it. -/
theorem mapTarget_of_map {map : ResourceMap} (h : c.map id = .ok map) (position : Nat) :
    ∃ stop, c.mapTarget id map position =
      .ok ((map.place position).1, (map.place position).2, stop) := by
  obtain ⟨size, hnumber, hranges⟩ := map_spec h
  unfold mapTarget ResourceMap.place
  cases hfind : map.ranges.find? (position < ·.stop) with
  | some range =>
    have hstop := List.find?_some hfind
    rw [decide_eq_true_eq] at hstop
    dsimp only
    by_cases hstart : range.start ≤ position
    · have hsame : (map.ranges.find? fun range => range.start ≤ position ∧ position < range.stop) =
          some range :=
        find?_of_imp hfind (decide_eq_true ⟨hstart, hstop⟩) fun x hx => by
          rw [decide_eq_true_eq] at hx ⊢
          exact hx.2
      rw [if_pos hstart, hsame]
      exact ⟨_, rfl⟩
    · -- the ranges in front end before the position, and the ones behind start after it
      have hnone : (map.ranges.find? fun range =>
          range.start ≤ position ∧ position < range.stop) = none := by
        rw [List.find?_eq_some_iff_append] at hfind
        obtain ⟨-, before, after, hsplit, hbefore⟩ := hfind
        have hordered := hranges.ordered
        rw [hsplit, List.pairwise_append, List.pairwise_cons] at hordered
        rw [List.find?_eq_none, hsplit]
        intro other hother
        rw [decide_eq_true_eq]
        rcases List.mem_append.mp hother with hother | hother
        · have hnot := hbefore other hother
          simp only [Bool.not_eq_true', decide_eq_false_iff_not] at hnot
          omega
        · rcases List.mem_cons.mp hother with rfl | hother
          · omega
          · have hle := hordered.2.1.1 other hother
            omega
      rw [if_neg hstart, hnumber, hnone]
      exact ⟨_, rfl⟩
  | none =>
    have hnone : (map.ranges.find? fun range =>
        range.start ≤ position ∧ position < range.stop) = none := by
      rw [List.find?_eq_none] at hfind ⊢
      intro range hrange
      have hnot := hfind range hrange
      rw [decide_eq_true_eq] at hnot ⊢
      omega
    dsimp only
    rw [hnumber, hnone]
    exact ⟨_, rfl⟩

theorem place_of_mapTarget {map : ResourceMap} {position : Nat} {found : String × Nat × Nat}
    (h : c.map id = .ok map) (hfound : c.mapTarget id map position = .ok found) :
    map.place position = (found.1, found.2.1) := by
  obtain ⟨stop, htarget⟩ := mapTarget_of_map h position
  rw [hfound] at htarget
  cases htarget
  rfl

/-! ## Chunks -/

theorem OpenedStream.chunkSize_pos (stream : c.OpenedStream) : 0 < stream.chunkSize := by
  have h := stream.opened
  simp only [imageStream, bind_eq_ok, rejectIf_eq_ok, pure_eq_ok] at h
  obtain ⟨chunkSize, -, perBevy, -, _, hgeometry, path, -, compression, -, hstream⟩ := h
  rw [← Except.ok.inj hstream]
  exact Nat.pos_of_ne_zero fun hzero => hgeometry (.inl hzero)

theorem length_chunk {stream : ImageStream} {chunk : Nat} {bytes : Bytes}
    (h : c.chunk stream chunk = .ok bytes) : bytes.length = stream.chunkSize := by
  simp only [Container.chunk, decodeChunk, bind_eq_ok, rejectIf_eq_ok, pure_eq_ok, not_not] at h
  obtain ⟨_, -, _, -, _, -, decoded, -, _, hlength, hbytes⟩ := h
  cases hbytes
  exact hlength

/-! ## The byte at an address -/

variable (c)

/-- The byte of a ZIP segment. The last one is there only if the member ends after it. -/
def zipByte (id : String) (size position : Nat) : Option UInt8 := do
  let path ← (c.path id).toOption
  let (file, contents) ← (c.archive.byName path).toOption
  guard (file.size = size)
  let byte ← contents.output[position]?
  guard (position + 1 = size → contents.hasMore size = .ok false)
  return byte

/-- The byte of an image stream: its place in the chunk that holds it. -/
def chunkByte (stream : ImageStream) (position : Nat) : Option UInt8 := do
  let decoded ← (c.chunk stream (position / stream.chunkSize)).toOption
  decoded[position % stream.chunkSize]?

/-- The byte of the target of a resource. -/
def targetByte (next : String → Nat → Option UInt8) (id target : String) (size position : Nat) :
    Option UInt8 := do
  if c.hasType id "ContiguousImage" ∧ c.hasType target "Map" then
    let map ← (c.map target).toOption
    let _ ← (checkContiguous map size).toOption
    next target position
  else next target position

/-- The byte of a segment, a map or an image stream. -/
def ownByte (next : String → Nat → Option UInt8) (id : String) (size position : Nat) :
    Option UInt8 := do
  if c.isZipSegment id then c.zipByte id size position
  else if c.hasType id "Map" then
    let map ← (c.map id).toOption
    next (map.place position).1 (map.place position).2
  else if c.hasType id "ImageStream" then
    let stream ← (c.openStream id).toOption
    c.chunkByte stream.toImageStream position
  else none

/-- The byte of a resource that is not symbolic, at an address inside it. -/
def storedByte (next : String → Nat → Option UInt8) (id : String) (size position : Nat) :
    Option UInt8 := do
  match ← (c.inlineData id).toOption with
  | some data => data[position]?
  | none =>
    match ← (c.value id "dataStream").toOption with
    | some target => c.targetByte next id target size position
    | none => c.ownByte next id size position

/-- The byte of a resource at an address, if it has one; the first argument counts the
references that may still follow. -/
def byteAt : Nat → List String → String → Nat → Option UInt8
  | 0, _, _, _ => none
  | depth + 1, visited, id, position => do
    let visited ← (enter id visited).toOption
    match symbolicByte id with
    | some byte => byte.toOption
    | none =>
      let size ← (c.size id).toOption
      if position < size then c.storedByte (byteAt depth visited) id size position else none

/-- What a selected resource denotes. -/
def denotes (id : String) : Nat → Option UInt8 := c.byteAt 32 [] id

variable {c}

/-! ## Reads deliver what resources denote -/

section Pieces

variable {offset length size : Nat}

/-- Reading exactly the bytes of a stream in a range. -/
theorem delivers_readExact (stream : ByteStream) (hlength : 0 < length) :
    Delivers (fun position => stream.output[position]?) offset length
      (stream.readExact offset length) := by
  unfold ByteStream.readExact
  by_cases hfits : length ≤ (stream.output.drop offset).length
  · rw [if_pos hfits]
    rw [List.length_drop] at hfits
    exact delivers_slice (by omega) fun i _ => rfl
  · have hnone : stream.output[offset + (length - 1)]? = none := by
      rw [List.length_drop] at hfits
      rw [List.getElem?_eq_none_iff]
      omega
    rw [if_neg hfits]
    cases stream.failure with
    | none => exact delivers_error (i := length - 1) (by omega) hnone
    | some e => exact delivers_error (i := length - 1) (by omega) hnone

theorem zipByte_eq_none {position : Nat}
    (h : ∀ path file contents, c.path id = .ok path →
      c.archive.byName path = .ok (file, contents) → file.size ≠ size) :
    c.zipByte id size position = none := by
  unfold zipByte
  cases hpath : c.path id with
  | error e => rfl
  | ok path =>
    change ((c.archive.byName path).toOption >>= _) = none
    cases hname : c.archive.byName path with
    | error e => rfl
    | ok opened =>
      change (guard (opened.1.size = size) >>= fun _ : Unit => _ : Option UInt8) = none
      rw [guard, if_neg (h path opened.1 opened.2 hpath hname)]
      rfl

section Segment

variable {path : String} {file : ZipFile} {contents : ByteStream} (hpath : c.path id = .ok path)
  (hname : c.archive.byName path = .ok (file, contents)) (hsize : file.size = size)

include hpath hname hsize

theorem zipByte_of_opened (position : Nat) : c.zipByte id size position =
    if position + 1 = size → contents.hasMore size = .ok false then contents.output[position]?
    else none := by
  unfold zipByte
  rw [hpath]
  change ((c.archive.byName path).toOption >>= _) = _
  rw [hname]
  change (guard (file.size = size) >>= fun _ => contents.output[position]? >>= _) = _
  rw [guard, if_pos hsize]
  by_cases hend : position + 1 = size → contents.hasMore size = .ok false
  · simp only [guard, if_pos hend]
    cases contents.output[position]? <;> rfl
  · simp only [guard, if_neg hend]
    cases contents.output[position]? <;> rfl

/-- The bytes of the member, and at its end the check that it ends, deliver the segment. -/
theorem delivers_zipEnd {read : Result Bytes}
    (hread : Delivers (fun position => contents.output[position]?) offset length read)
    (hlength : 0 < length) (hfits : offset + length ≤ size) :
    Delivers (c.zipByte id size) offset length (read >>= fun bytes =>
      if offset + length = size then
        contents.hasMore size >>= fun more =>
          refuseIf more (.malformed "oversized ZIP segment") >>= fun _ => .ok bytes
      else .ok bytes) := by
  have hbyte := zipByte_of_opened hpath hname hsize
  cases read with
  | error e =>
    obtain ⟨i, hlt, hnone⟩ := hread.error_iff.mp ⟨e, rfl⟩
    refine delivers_error hlt ?_
    rw [hbyte, hnone, ite_self]
  | ok bytes =>
    rw [ok_bind]
    by_cases hend : offset + length = size
    · have hlast : contents.hasMore size ≠ .ok false →
          c.zipByte id size (offset + (length - 1)) = none := by
        intro hmore
        rw [hbyte, if_neg fun himp => hmore (himp (by omega))]
      rw [if_pos hend]
      cases hmore : contents.hasMore size with
      | error e =>
        exact delivers_error (i := length - 1) (by omega) (hlast (by simp [hmore]))
      | ok more =>
        cases more with
        | true =>
          exact delivers_error (i := length - 1) (by omega) (hlast (by simp [hmore]))
        | false => exact hread.congr fun i _ => by rw [hbyte, if_pos fun _ => hmore]
    · rw [if_neg hend]
      refine hread.congr fun i hi => ?_
      rw [hbyte, if_pos fun hlast => absurd hlast (by omega)]

end Segment

theorem delivers_readZipSegment (hlength : 0 < length) (hfits : offset + length ≤ size) :
    Delivers (c.zipByte id size) offset length (c.readZipSegment id size offset length) := by
  unfold readZipSegment
  cases hpath : c.path id with
  | error e =>
    refine delivers_error (i := 0) hlength (zipByte_eq_none fun path _ _ hok => ?_)
    rw [hpath] at hok
    cases hok
  | ok path =>
    rw [ok_bind]
    cases hname : c.archive.byName path with
    | error e =>
      refine delivers_error (i := 0) hlength (zipByte_eq_none fun path' _ _ hok hopened => ?_)
      rw [hpath, Except.ok.injEq] at hok
      rw [← hok, hname] at hopened
      cases hopened
    | ok opened =>
      obtain ⟨file, contents⟩ := opened
      rw [ok_bind]
      dsimp only
      by_cases hsize : file.size = size
      · rw [rejectIf_neg _ (not_not.mpr hsize), ok_bind]
        refine delivers_zipEnd hpath hname hsize ?_ hlength hfits
        by_cases hskip : offset ≤ contents.output.length
        · rw [if_pos hskip]
          exact delivers_readExact contents hlength
        · have hnone : contents.output[offset + 0]? = none := by
            rw [List.getElem?_eq_none_iff]
            omega
          rw [if_neg hskip]
          cases contents.failure with
          | none => exact delivers_error hlength hnone
          | some e => exact delivers_error hlength hnone
      · rw [rejectIf_pos _ hsize]
        refine delivers_error (i := 0) hlength (zipByte_eq_none fun path' file' _ hok hopened => ?_)
        rw [hpath, Except.ok.injEq] at hok
        rw [← hok, hname, Except.ok.injEq] at hopened
        cases hopened
        exact hsize

/-! ## Chunks -/

theorem eval_readChunkLoop (useDecodedCache : Bool) (stream : c.OpenedStream) (fuel : Nat)
    (done : Bytes) :
    (c.readChunkLoop useDecodedCache stream offset length fuel done).eval c.answer =
      pieceLoop (fun start => do
        let decoded ← c.chunk stream.toImageStream ((offset + start) / stream.chunkSize)
        .ok (slice decoded ((offset + start) % stream.chunkSize)
          (min (decoded.length - (offset + start) % stream.chunkSize) (length - start))))
        length fuel done := by
  induction fuel generalizing done with
  | zero => rfl
  | succ fuel ih =>
    rw [readChunkLoop, pieceLoop, Program.eval_ite, Program.eval_bind]
    congr 1
    change (c.chunk stream.toImageStream _ >>= _) = _
    cases c.chunk stream.toImageStream ((offset + done.length) / stream.chunkSize) with
    | error e => rfl
    | ok decoded => exact ih _

theorem delivers_readChunkLoop (useDecodedCache : Bool) (stream : c.OpenedStream) :
    Delivers (c.chunkByte stream.toImageStream) offset length
      ((c.readChunkLoop useDecodedCache stream offset length length []).eval c.answer) := by
  rw [eval_readChunkLoop]
  refine delivers_pieceLoop (fun start hstart => ?_) rfl (Nat.zero_le _) (by simp)
  have hpos := stream.chunkSize_pos
  have hmod := Nat.mod_lt (offset + start) hpos
  refine ⟨min (stream.chunkSize - (offset + start) % stream.chunkSize) (length - start),
    by omega, by omega, ?_⟩
  have hbyte : ∀ i, i < stream.chunkSize - (offset + start) % stream.chunkSize →
      c.chunkByte stream.toImageStream (offset + start + i) =
        ((c.chunk stream.toImageStream ((offset + start) / stream.chunkSize)).toOption >>=
          fun decoded => decoded[(offset + start) % stream.chunkSize + i]?) := by
    intro i hi
    have hposition : offset + start + i =
        (offset + start) % stream.chunkSize + i +
          stream.chunkSize * ((offset + start) / stream.chunkSize) := by
      have hdiv := Nat.mod_add_div (offset + start) stream.chunkSize
      omega
    have hlt : (offset + start) % stream.chunkSize + i < stream.chunkSize := by omega
    have hsame : (offset + start + i) / stream.chunkSize =
        (offset + start) / stream.chunkSize := by
      rw [hposition, Nat.add_mul_div_left _ _ hpos, Nat.div_eq_of_lt hlt, Nat.zero_add]
    have hrest : (offset + start + i) % stream.chunkSize =
        (offset + start) % stream.chunkSize + i := by
      rw [hposition, Nat.add_mul_mod_self_left, Nat.mod_eq_of_lt hlt]
    rw [chunkByte, hsame, hrest]
  cases hchunk : c.chunk stream.toImageStream ((offset + start) / stream.chunkSize) with
  | error e =>
    refine delivers_error (i := 0) (by omega) ?_
    rw [hbyte 0 (by omega), hchunk]
    rfl
  | ok decoded =>
    have hlength := length_chunk hchunk
    rw [ok_bind, hlength]
    refine delivers_slice (by omega) fun i hi => ?_
    rw [hbyte i (by omega), hchunk]
    rfl

/-! ## Maps -/

theorem eval_readMapLoop (read : String → Nat → Nat → c.Reading Bytes) (map : ResourceMap)
    (fuel : Nat) (done : Bytes) :
    (c.readMapLoop read id map offset length fuel done).eval c.answer =
      pieceLoop (fun start => do
        let (target, targetOffset, stop) ← c.mapTarget id map (offset + start)
        refuseIf (min (stop - (offset + start)) (length - start) = 0)
          (.malformed "map makes no progress")
        (read target targetOffset (min (stop - (offset + start)) (length - start))).eval c.answer)
        length fuel done := by
  induction fuel generalizing done with
  | zero => rfl
  | succ fuel ih =>
    rw [readMapLoop, pieceLoop, Program.eval_ite, Program.eval_bind]
    congr 1
    rw [Program.eval_lift]
    cases c.mapTarget id map (offset + done.length) with
    | error e => rfl
    | ok target =>
      rw [ok_bind, ok_bind]
      dsimp only
      rw [Program.eval_bind, Program.eval_lift]
      unfold refuseIf
      by_cases hzero : min (target.2.2 - (offset + done.length)) (length - done.length) = 0
      · rw [rejectIf_pos _ hzero]
        rfl
      · rw [rejectIf_neg _ hzero, ok_bind, ok_bind, Program.eval_bind]
        congr 1
        funext bytes
        rw [ih]

/-- The end of the target of a position is behind the position. -/
theorem lt_of_mapTarget {map : ResourceMap} {position targetOffset stop : Nat} {target : String}
    (hsize : ∀ size, c.number id "size" = .ok size → position < size)
    (h : c.mapTarget id map position = .ok (target, targetOffset, stop)) : position < stop := by
  unfold mapTarget at h
  cases hfind : map.ranges.find? (position < ·.stop) with
  | some range =>
    rw [hfind] at h
    have hstop := List.find?_some hfind
    rw [decide_eq_true_eq] at hstop
    dsimp only at h
    by_cases hstart : range.start ≤ position
    · rw [if_pos hstart] at h
      cases h
      exact hstop
    · rw [if_neg hstart, bind_eq_ok] at h
      obtain ⟨_, -, hgap⟩ := h
      cases hgap
      omega
  | none =>
    rw [hfind] at h
    simp only [bind_eq_ok] at h
    obtain ⟨size, hnumber, hgap⟩ := h
    cases hgap
    exact hsize _ hnumber

/-- Up to its end, the target of a position is the target of the positions that follow. -/
theorem mapTarget_add {map : ResourceMap} {position targetOffset stop i : Nat} {target : String}
    (hranges : ∀ range ∈ map.ranges, range.start < range.stop)
    (h : c.mapTarget id map position = .ok (target, targetOffset, stop))
    (hi : position + i < stop) :
    c.mapTarget id map (position + i) = .ok (target, targetOffset + i, stop) := by
  unfold mapTarget at h ⊢
  cases hfind : map.ranges.find? (position < ·.stop) with
  | some range =>
    rw [hfind] at h
    have hnonempty := hranges range (List.mem_of_find?_eq_some hfind)
    dsimp only at h
    by_cases hstart : range.start ≤ position
    · rw [if_pos hstart] at h
      cases h
      have hsame : map.ranges.find? (position + i < ·.stop) = some range :=
        find?_of_imp hfind (decide_eq_true hi) fun x hx => by
          rw [decide_eq_true_eq] at hx ⊢
          omega
      rw [hsame]
      dsimp only
      rw [if_pos (by omega), show position + i - range.start = position - range.start + i by omega,
        Nat.add_assoc]
    · rw [if_neg hstart, bind_eq_ok] at h
      obtain ⟨size, hnumber, hgap⟩ := h
      cases hgap
      have hsame : map.ranges.find? (position + i < ·.stop) = some range :=
        find?_of_imp hfind (decide_eq_true (by omega)) fun x hx => by
          rw [decide_eq_true_eq] at hx ⊢
          omega
      rw [hsame]
      dsimp only
      rw [if_neg (by omega), hnumber]
      rfl
  | none =>
    rw [hfind] at h
    simp only [bind_eq_ok] at h
    obtain ⟨size, hnumber, hgap⟩ := h
    cases hgap
    have hsame : map.ranges.find? (position + i < ·.stop) = none := by
      rw [List.find?_eq_none] at hfind ⊢
      intro range hrange
      have hnot := hfind range hrange
      rw [decide_eq_true_eq] at hnot ⊢
      omega
    rw [hsame]
    dsimp only
    rw [hnumber]
    rfl

/-- A map delivers its targets, when reading a target delivers it. -/
theorem delivers_readMapLoop {read : String → Nat → Nat → c.Reading Bytes}
    {f : String → Nat → Option UInt8} {map : ResourceMap}
    (hread : ∀ target start take, 0 < take →
      Delivers (f target) start take ((read target start take).eval c.answer))
    (hranges : ∀ range ∈ map.ranges, range.start < range.stop)
    (hsize : ∀ size, c.number id "size" = .ok size → offset + length ≤ size) :
    Delivers (fun position => do
        let (target, targetOffset, _) ← (c.mapTarget id map position).toOption
        f target targetOffset) offset length
      ((c.readMapLoop read id map offset length length []).eval c.answer) := by
  rw [eval_readMapLoop]
  refine delivers_pieceLoop (fun start hstart => ?_) rfl (Nat.zero_le _) (by simp)
  cases htarget : c.mapTarget id map (offset + start) with
  | error e =>
    refine ⟨1, Nat.one_pos, by omega, delivers_error (i := 0) Nat.one_pos ?_⟩
    rw [Nat.add_zero, htarget]
    rfl
  | ok found =>
    obtain ⟨target, targetOffset, stop⟩ := found
    have hstop := lt_of_mapTarget (fun size hnumber => by have := hsize size hnumber; omega) htarget
    refine ⟨min (stop - (offset + start)) (length - start), by omega, by omega, ?_⟩
    rw [ok_bind]
    dsimp only
    unfold refuseIf
    rw [rejectIf_neg _ (by omega), ok_bind]
    refine (hread target targetOffset _ (by omega)).shift fun i hi => ?_
    rw [mapTarget_add hranges htarget (by omega)]
    rfl

end Pieces

/-! ## Resources -/

theorem enter_eq_ok {visited visited' : List String} (h : enter id visited = .ok visited') :
    visited' = id :: visited ∧ visited.length < 32 ∧ id ∉ visited := by
  simp only [enter, bind_eq_ok, rejectIf_eq_ok, pure_eq_ok, not_or] at h
  obtain ⟨_, ⟨hlength, hfresh⟩, hvisited⟩ := h
  cases hvisited
  exact ⟨rfl, by omega, hfresh⟩

section Stored

variable {read : String → Nat → Nat → c.Reading Bytes} {next : String → Nat → Option UInt8}
  {useDecodedCache : Bool} {offset length size : Nat}

theorem delivers_readTarget {target : String}
    (hread : ∀ target start take, 0 < take →
      Delivers (next target) start take ((read target start take).eval c.answer))
    (hlength : 0 < length) :
    Delivers (c.targetByte next id target size) offset length
      ((c.readTarget read id target size offset length).eval c.answer) := by
  unfold targetByte readTarget
  by_cases hcontiguous : c.hasType id "ContiguousImage" ∧ c.hasType target "Map"
  · simp only [if_pos hcontiguous]
    rw [Program.eval_bind]
    change Delivers _ offset length (c.map target >>= _)
    cases hmap : c.map target with
    | error e => exact delivers_error (i := 0) hlength rfl
    | ok map =>
      rw [ok_bind, Program.eval_bind, Program.eval_lift]
      cases hcheck : checkContiguous map size with
      | error e =>
        refine delivers_error (i := 0) hlength ?_
        change ((checkContiguous map size).toOption >>= _) = none
        rw [hcheck]
        rfl
      | ok u =>
        refine (hread target offset length hlength).congr fun i _ => ?_
        change _ = ((checkContiguous map size).toOption >>= _)
        rw [hcheck]
        rfl
  · simp only [if_neg hcontiguous]
    exact hread target offset length hlength

theorem delivers_readOwn
    (hread : ∀ target start take, 0 < take →
      Delivers (next target) start take ((read target start take).eval c.answer))
    (hlength : 0 < length) (hsize : ∀ n, c.number id "size" = .ok n → n = size)
    (hfits : offset + length ≤ size) :
    Delivers (c.ownByte next id size) offset length
      ((c.readOwn read useDecodedCache id size offset length).eval c.answer) := by
  unfold ownByte readOwn
  by_cases hzip : c.isZipSegment id = true
  · simp only [if_pos hzip]
    exact delivers_readZipSegment hlength hfits
  · simp only [if_neg hzip]
    by_cases hmapped : c.hasType id "Map" = true
    · simp only [if_pos hmapped]
      rw [Program.eval_bind]
      change Delivers _ offset length (c.map id >>= _)
      cases hmap : c.map id with
      | error e => exact delivers_error (i := 0) hlength rfl
      | ok map =>
        obtain ⟨_, -, hranges⟩ := map_spec hmap
        refine (delivers_readMapLoop hread hranges.nonempty
          fun n hn => (hsize n hn).symm ▸ hfits).congr fun i _ => ?_
        obtain ⟨stop, htarget⟩ := mapTarget_of_map hmap (offset + i)
        rw [htarget]
        rfl
    · simp only [if_neg hmapped]
      unfold refuseIf
      rw [Program.eval_bind, Program.eval_lift]
      by_cases hstream : c.hasType id "ImageStream" = true
      · simp only [if_pos hstream]
        rw [rejectIf_neg _ (not_not.mpr hstream), ok_bind, Program.eval_bind, Program.eval_lift]
        cases hopen : c.openStream id with
        | error e => exact delivers_error (i := 0) hlength rfl
        | ok stream => exact delivers_readChunkLoop useDecodedCache stream
      · simp only [if_neg hstream]
        rw [rejectIf_pos _ hstream]
        exact delivers_error (i := 0) hlength rfl

/-- A resource delivers what it denotes, when reading its targets delivers them. -/
theorem delivers_readStored
    (hread : ∀ target start take, 0 < take →
      Delivers (next target) start take ((read target start take).eval c.answer))
    (hlength : 0 < length) (hsize : c.size id = .ok size) (hfits : offset + length ≤ size) :
    Delivers (c.storedByte next id size) offset length
      ((c.readStored read useDecodedCache id size offset length).eval c.answer) := by
  unfold storedByte readStored
  rw [Program.eval_bind, Program.eval_lift]
  cases hinline : c.inlineData id with
  | error e => exact delivers_error (i := 0) hlength rfl
  | ok inline =>
    rw [ok_bind]
    cases inline with
    | some data =>
      have hdata := size_of_inlineData hinline
      rw [hsize, Except.ok.injEq] at hdata
      exact delivers_slice (hdata ▸ hfits) fun i _ => rfl
    | none =>
      dsimp only
      rw [Program.eval_bind, Program.eval_lift]
      cases hvalue : c.value id "dataStream" with
      | error e => exact delivers_error (i := 0) hlength rfl
      | ok target =>
        cases target with
        | some target => exact delivers_readTarget hread hlength
        | none =>
          have hnumber := size_eq_number hinline hvalue
          rw [hsize] at hnumber
          refine delivers_readOwn hread hlength (fun n hn => ?_) hfits
          rw [hn, Except.ok.injEq] at hnumber
          exact hnumber.symm

end Stored

theorem byteAt_succ (depth : Nat) (visited : List String) (id : String) :
    c.byteAt (depth + 1) visited id = fun position => (enter id visited).toOption >>= fun visited =>
      match symbolicByte id with
      | some byte => byte.toOption
      | none => (c.size id).toOption >>= fun size =>
        if position < size then c.storedByte (c.byteAt depth visited) id size position else none :=
  rfl

section Entered

variable {depth position : Nat} {id : String} {visited visited' : List String}

theorem byteAt_of_symbolic {byte : Result UInt8} (henter : enter id visited = .ok visited')
    (hsymbolic : symbolicByte id = some byte) :
    c.byteAt (depth + 1) visited id position = byte.toOption := by
  rw [byteAt_succ, henter]
  dsimp only [Except.toOption]
  rw [hsymbolic]
  rfl

theorem byteAt_of_not_symbolic (henter : enter id visited = .ok visited')
    (hsymbolic : symbolicByte id = none) :
    c.byteAt (depth + 1) visited id position = (c.size id).toOption >>= fun size =>
      if position < size then c.storedByte (c.byteAt depth visited') id size position else none := by
  rw [byteAt_succ, henter]
  dsimp only [Except.toOption]
  rw [hsymbolic]
  rfl

end Entered

/-- A read of at least a byte delivers what the resource denotes. -/
theorem delivers_readInner (useDecodedCache : Bool) (depth : Nat) :
    ∀ (visited : List String) (id : String) (offset length : Nat), 0 < length →
      Delivers (c.byteAt depth visited id) offset length
        ((c.readInner useDecodedCache depth visited id offset length).eval c.answer) := by
  induction depth with
  | zero => exact fun visited id offset length hlength => delivers_error (i := 0) hlength rfl
  | succ depth ih =>
    intro visited id offset length hlength
    rw [byteAt_succ, readInner, Program.eval_bind, Program.eval_lift]
    cases henter : enter id visited with
    | error e => exact delivers_error (i := 0) hlength rfl
    | ok visited' =>
      rw [ok_bind]
      change Delivers (fun position => match symbolicByte id with
        | some byte => byte.toOption
        | none => _) offset length _
      cases hsymbolic : symbolicByte id with
      | some byte =>
        cases byte with
        | error e => exact delivers_error (i := 0) hlength rfl
        | ok byte => exact delivers_replicate fun i _ => rfl
      | none =>
        dsimp only
        rw [Program.eval_bind, Program.eval_lift]
        cases hsize : c.size id with
        | error e => exact delivers_error (i := 0) hlength rfl
        | ok size =>
          unfold refuseIf
          rw [ok_bind, Program.eval_bind, Program.eval_lift]
          by_cases hfits : offset + length ≤ size
          · have hlt := size_lt hsize
            rw [checkedAdd_of_lt (by omega), rejectIf_neg _ (by simpa using hfits), ok_bind]
            refine (delivers_readStored (ih visited') hlength hsize hfits).congr fun i hi => ?_
            exact (if_pos (by omega)).symm
          · have hout : (checkedAdd offset length).all (size < ·) = true := by
              by_cases hlt : offset + length < u64Limit
              · rw [checkedAdd_of_lt hlt]
                simpa using hfits
              · simp [checkedAdd, hlt]
            rw [rejectIf_pos _ hout]
            exact delivers_error (i := length - 1) (by omega) (if_neg (by omega))

end Container

end EwfImage.Aff4

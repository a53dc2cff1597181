import EwfImage.Reading.Policy
import EwfImage.Reading.SingleFiles

/-!
# The content of a file

The content of a file is a sequence of bytes that are zeros or have a place in the media: the
extents of the entry in their order, the data that the entry refers to, or one stored byte over
and over. A read returns its part of the content when the part is there and readable, and fails
otherwise (`triple_readSingleFileAtImpl`); reads that follow each other return what one read of
all of it returns (`granted_add`, `part_add`).

Nothing is assumed of the extents: they may overlap and point outside of the media, and a byte
that no extent has is a zero. What is outside of the media has no place, and a part with such a
byte is not readable.
-/

namespace EwfImage.Reading

open Fallible LruCache Slice Triples Word

/-- A byte of a file: a zero, or the byte at a position of the media. -/
inductive FileByte
  | zero
  | media (position : Nat)
  deriving DecidableEq, Repr

namespace FileByte

def value (media : Bytes) : FileByte → UInt8
  | zero => 0
  | .media position => media.getD position 0

/-- The place of the byte is in the media and can be read. -/
def Readable (media : Bytes) (readable : Nat → Prop) : FileByte → Prop
  | zero => True
  | .media position => position < media.length ∧ readable position

end FileByte

/-- Consecutive bytes of the media. -/
def mediaRun (offset length : Nat) : List FileByte :=
  (List.range length).map fun i => .media (offset + i)

def SingleFileExtent.content (extent : SingleFileExtent) : List FileByte :=
  if extent.sparse then List.replicate extent.dataSize .zero
  else mediaRun extent.dataOffset extent.dataSize

namespace Image

variable (image : Image) (entry : SingleFileEntry)

/-- The content of a file with a size. -/
def content (size : Nat) : List FileByte :=
  match image.duplicateData entry with
  | some position => mediaRun position size
  | none =>
    if image.ewf1LogicalSparse entry then
      match storedByte entry with
      | some extent => List.replicate size (.media extent.dataOffset)
      | none => []
    else (entry.extents.flatMap SingleFileExtent.content).take size

/-- The ends of the extents are 64-bit values, where the extents are read. -/
def ExtentsFit : Prop :=
  image.duplicateData entry = none → image.ewf1LogicalSparse entry = false →
    (entry.extents.map SingleFileExtent.dataSize).sum < u64Limit

/-- The part of the content that a read of `length` bytes at `offset` asks for. -/
def part (length offset : Nat) : List FileByte :=
  match singleFileSize entry with
  | .ok size => slice (image.content entry size) offset (min length (size - offset))
  | .error _ => []

/-- What a read needs: a size, extents that end in the range of offsets and cover the part, and a
part that can be read. -/
def Granted (media : Bytes) (readable : Nat → Prop) (length offset : Nat) : Prop :=
  length = 0 ∨ ∃ size, singleFileSize entry = .ok size ∧ (size ≤ offset ∨
    image.ExtentsFit entry ∧
      (image.part entry length offset).length = min length (size - offset) ∧
      ∀ byte ∈ image.part entry length offset, byte.Readable media readable)

end Image

/-! ## Parts of the content -/

theorem length_mediaRun (offset length : Nat) : (mediaRun offset length).length = length := by
  rw [mediaRun, List.length_map, List.length_range]

theorem SingleFileExtent.length_content (extent : SingleFileExtent) :
    extent.content.length = extent.dataSize := by
  unfold SingleFileExtent.content
  split
  · exact List.length_replicate
  · exact length_mediaRun _ _

theorem slice_mediaRun {offset length start count : Nat} (h : start + count ≤ length) :
    slice (mediaRun offset length) start count = mediaRun (offset + start) count := by
  refine List.ext_getElem ?_ fun i hleft hright => ?_
  · rw [length_mediaRun]
    refine length_slice_of_le ?_
    rw [length_mediaRun]
    exact h
  · simp only [slice, mediaRun, List.getElem_take, List.getElem_drop, List.getElem_map,
      List.getElem_range, Nat.add_assoc]

theorem slice_replicate {α : Type} {a : α} {length start count : Nat} (h : start + count ≤ length) :
    slice (List.replicate length a) start count = List.replicate count a := by
  rw [slice, List.drop_replicate, List.take_replicate, Nat.min_eq_left (by omega)]

/-- A slice of a concatenation lies in the front, in the rest or in both. -/
theorem slice_append {α : Type} (xs ys : List α) (offset size : Nat) :
    slice (xs ++ ys) offset size =
      slice xs offset size ++ slice ys (offset - xs.length) (size - (xs.length - offset)) := by
  unfold slice
  rw [List.drop_append, List.take_append, List.length_drop]

theorem slice_min {α : Type} (xs : List α) (offset size : Nat) :
    slice xs offset (min size (xs.length - offset)) = slice xs offset size := by
  unfold slice
  rw [List.take_eq_take_iff, List.length_drop]
  omega

/-- The bytes of a run of the media. -/
theorem map_value_mediaRun {media : Bytes} {offset length : Nat}
    (h : offset + length ≤ media.length) :
    (mediaRun offset length).map (FileByte.value media) = slice media offset length := by
  refine List.ext_getElem ?_ fun i hleft hright => ?_
  · rw [List.length_map, length_mediaRun, length_slice_of_le h]
  · have hi : i < length := by
      rw [List.length_map, length_mediaRun] at hleft
      exact hleft
    have hbound : offset + i < media.length := by omega
    simp only [mediaRun, List.getElem_map, List.getElem_range, FileByte.value, slice,
      List.getElem_take, List.getElem_drop]
    exact List.getD_eq_getElem _ _ hbound

theorem mem_mediaRun {offset length : Nat} {byte : FileByte} :
    byte ∈ mediaRun offset length ↔ ∃ i < length, byte = .media (offset + i) := by
  simp only [mediaRun, List.mem_map, List.mem_range, eq_comm]

/-! ## Copies into the buffer -/

theorem length_overwrite {buf bytes : Bytes} {offset : Nat}
    (h : offset + bytes.length ≤ buf.length) :
    (overwrite buf offset bytes).length = buf.length := by
  simp only [overwrite, List.length_append, List.length_take, List.length_drop]
  omega

theorem overwrite_nil (buf : Bytes) (offset : Nat) : overwrite buf offset [] = buf := by
  simp [overwrite]

/-- Two copies that follow each other. -/
theorem overwrite_overwrite {buf first second : Bytes} {offset : Nat}
    (h : offset + first.length ≤ buf.length) :
    overwrite (overwrite buf offset first) (offset + first.length) second =
      overwrite buf offset (first ++ second) := by
  have htake : (overwrite buf offset first).take (offset + first.length) =
      buf.take offset ++ first := by
    have hfront : (buf.take offset ++ first).length = offset + first.length := by
      rw [List.length_append, List.length_take]
      omega
    rw [overwrite, ← hfront, List.take_left]
  have hdrop : (overwrite buf offset first).drop (offset + first.length + second.length) =
      buf.drop (offset + first.length + second.length) := by
    have hfront : (buf.take offset ++ first).length = offset + first.length := by
      rw [List.length_append, List.length_take]
      omega
    rw [overwrite, ← List.drop_drop, ← hfront, List.drop_left, hfront, List.drop_drop]
  rw [overwrite, htake, hdrop, overwrite, List.length_append, List.append_assoc, List.append_assoc,
    List.append_assoc, List.append_assoc, Nat.add_assoc]

/-! ## Reads of the media -/

variable {lru : Interface}

/-- Under the invariant, reads of the media return its bytes when they are readable, and fail
otherwise. -/
structure ReadsFrom (P : Reader lru → Prop) (media : Bytes) (readable : Nat → Prop)
    (readAt : Nat → Nat → Read lru Bytes) : Prop where
  short : media.length < u64Limit
  running : ∀ reader, P reader → reader.abortSignaled = false
  read : ∀ length offset, Triple P (readAt length offset)
    (fun bytes s => P s ∧ bytes = slice media offset length ∧ ∀ position, offset ≤ position →
      position < offset + length → position < media.length → readable position)
    fun stop s => P s ∧ stop.IsError ∧ ∃ position, offset ≤ position ∧
      position < offset + length ∧ position < media.length ∧ ¬ readable position

section Triples

variable {P : Reader lru → Prop} {media : Bytes} {readable : Nat → Prop}
  {readAt : Nat → Nat → Read lru Bytes} (h : ReadsFrom P media readable readAt)

include h

theorem ReadsFrom.ensureNotAborted {α : Type} {x : Read lru α} {Q : α → Reader lru → Prop}
    {E : Stop → Reader lru → Prop} (hx : Triple P x Q E) :
    Triple P (ensureNotAborted >>= fun _ => x) Q E := by
  refine Triple.bind (Q := fun _ => P) ?_ fun _ => hx
  refine Triple.bind_get fun reader hreader => ?_
  rw [h.running reader hreader]
  exact triple_pure fun s hs => hs ▸ hreader

/-- A whole run of the media. -/
theorem triple_readWhole (length offset : Nat) (truncated : String) :
    Triple P (readWhole readAt length offset truncated)
      (fun bytes s => P s ∧ bytes = (mediaRun offset length).map (FileByte.value media) ∧
        ∀ byte ∈ mediaRun offset length, byte.Readable media readable)
      fun stop s => P s ∧ stop.IsError ∧
        ∃ byte ∈ mediaRun offset length, ¬ byte.Readable media readable := by
  refine Triple.bind ((h.read length offset).weaken (fun _ hs => hs) (fun _ _ hs => hs)
    fun _ s hs => ⟨hs.1, hs.2.1, ?_⟩) fun bytes => ?_
  · obtain ⟨-, -, position, hge, hlt, -, hnot⟩ := hs
    refine ⟨.media position, mem_mediaRun.mpr ⟨position - offset, by omega, ?_⟩, fun hread =>
      hnot hread.2⟩
    rw [Nat.add_sub_cancel' hge]
  · refine Triple.of_fact (p := bytes = slice media offset length ∧ ∀ position, offset ≤ position →
      position < offset + length → position < media.length → readable position)
      (fun hbytes => ?_) fun s hs => hs.2
    refine Triple.of_pre (P := P) ?_ fun s hs => hs.1
    obtain ⟨rfl, hreadable⟩ := hbytes
    by_cases hfits : offset + length ≤ media.length
    · rw [if_neg (not_not_intro (length_slice_of_le hfits))]
      refine triple_pure fun s hs => ⟨hs, (map_value_mediaRun hfits).symm, ?_⟩
      intro byte hbyte
      obtain ⟨i, hi, rfl⟩ := mem_mediaRun.mp hbyte
      exact ⟨by omega, hreadable _ (by omega) (by omega) (by omega)⟩
    · by_cases hempty : length = 0
      · subst hempty
        rw [slice_zero, if_neg (by simp)]
        exact triple_pure fun s hs => ⟨hs, rfl, fun byte hbyte => absurd hbyte List.not_mem_nil⟩
      · have hshort : (slice media offset length).length ≠ length := by
          rw [length_slice]
          omega
        rw [if_pos hshort]
        refine triple_throw fun s hs => ⟨hs, ⟨_, rfl⟩, .media (offset + (length - 1)),
          mem_mediaRun.mpr ⟨length - 1, by omega, rfl⟩, fun hread => ?_⟩
        have hlt : offset + (length - 1) < media.length := hread.1
        omega

/-- A place that is behind the 64-bit range is in no media. -/
theorem ReadsFrom.not_readable {offset : Nat} (hoffset : u64Limit ≤ offset) :
    ¬ (FileByte.media offset).Readable media readable := by
  have hshort := h.short
  rintro ⟨hlt, -⟩
  omega

end Triples

/-- The bytes of the extents from a position of the file on that a read asks for. -/
def window (offset toRead : Nat) (extents : List SingleFileExtent) (extentStart : Nat) :
    List FileByte :=
  slice (extents.flatMap SingleFileExtent.content) (offset - extentStart)
    (offset + toRead - max offset extentStart)

theorem window_cons (offset toRead extentStart : Nat) (extent : SingleFileExtent)
    (extents : List SingleFileExtent) : window offset toRead (extent :: extents) extentStart =
      slice extent.content (offset - extentStart) (min (offset + toRead)
        (extentStart + extent.dataSize) - max offset extentStart) ++
      window offset toRead extents (extentStart + extent.dataSize) := by
  have hcut : slice extent.content (offset - extentStart)
      (offset + toRead - max offset extentStart) = slice extent.content (offset - extentStart)
        (min (offset + toRead) (extentStart + extent.dataSize) - max offset extentStart) := by
    rw [← slice_min, extent.length_content]
    congr 1
    omega
  have hoffset : offset - extentStart - extent.dataSize =
      offset - (extentStart + extent.dataSize) := by omega
  have hsize : offset + toRead - max offset extentStart -
      (extent.dataSize - (offset - extentStart)) =
        offset + toRead - max offset (extentStart + extent.dataSize) := by omega
  rw [window, List.flatMap_cons, slice_append, hcut, extent.length_content, hoffset, hsize, window]

/-- What a turn of the loop copies of an extent. -/
theorem slice_content {extent : SingleFileExtent} {start count : Nat}
    (hfits : start + count ≤ extent.dataSize) : slice extent.content start count =
      if extent.sparse then List.replicate count .zero
      else mediaRun (extent.dataOffset + start) count := by
  unfold SingleFileExtent.content
  split
  · exact slice_replicate hfits
  · exact slice_mediaRun hfits

theorem fromResult_ok_bind {α β : Type} (a : α) (f : α → Read lru β) :
    (fromResult (.ok a) >>= f) = f a := rfl

theorem triple_fromResult_error {α β : Type} {P : Reader lru → Prop} {Q : β → Reader lru → Prop}
    {E : Stop → Reader lru → Prop} {e : EwfError} (f : α → Read lru β)
    (h : ∀ s, P s → E (.error e) s) :
    Triple P (fromResult (.error e) >>= f) Q E :=
  fun s hs => h s hs

section Loop

variable (P : Reader lru → Prop) (media : Bytes) (readable : Nat → Prop) (offset toRead : Nat)

/-- The computation copies what a read asks for of the extents to a place of the buffer, when they
end in the range of offsets and the part can be read. -/
def CopiesExtents (extents : List SingleFileExtent) (extentStart copied : Nat) (buf : Bytes)
    (x : Read lru (Nat × Bytes)) : Prop :=
  Triple P x
    (fun result s => P s ∧
      extentStart + (extents.map SingleFileExtent.dataSize).sum < u64Limit ∧
      (∀ byte ∈ window offset toRead extents extentStart, byte.Readable media readable) ∧
      result = (copied + (window offset toRead extents extentStart).length,
        overwrite buf copied ((window offset toRead extents extentStart).map
          (FileByte.value media))))
    fun stop s => P s ∧ stop.IsError ∧
      (u64Limit ≤ extentStart + (extents.map SingleFileExtent.dataSize).sum ∨
        ∃ byte ∈ window offset toRead extents extentStart, ¬ byte.Readable media readable)

variable {P media readable offset toRead} {extent : SingleFileExtent}
  {extents : List SingleFileExtent} {extentStart copied : Nat} {buf : Bytes}

/-- A piece of the first extent is in front of what the others give. -/
theorem CopiesExtents.cons {piece : List FileByte} {x : Read lru (Nat × Bytes)}
    (hpiece : window offset toRead (extent :: extents) extentStart =
      piece ++ window offset toRead extents (extentStart + extent.dataSize))
    (hreadable : ∀ byte ∈ piece, byte.Readable media readable)
    (hfits : copied + piece.length ≤ buf.length)
    (hx : CopiesExtents P media readable offset toRead extents (extentStart + extent.dataSize)
      (copied + piece.length) (overwrite buf copied (piece.map (FileByte.value media))) x) :
    CopiesExtents P media readable offset toRead (extent :: extents) extentStart copied buf x := by
  have hsum : extentStart + ((extent :: extents).map SingleFileExtent.dataSize).sum =
      extentStart + extent.dataSize + (extents.map SingleFileExtent.dataSize).sum := by
    rw [List.map_cons, List.sum_cons, Nat.add_assoc]
  have hlength : (piece.map (FileByte.value media)).length = piece.length := List.length_map _
  unfold CopiesExtents at hx ⊢
  rw [hpiece, hsum]
  refine hx.weaken (fun _ hs => hs) (fun result s hs => ⟨hs.1, hs.2.1, ?_, ?_⟩)
    fun _ s hs => ⟨hs.1, hs.2.1, hs.2.2.imp id ?_⟩
  · intro byte hbyte
    exact (List.mem_append.mp hbyte).elim (hreadable byte) (hs.2.2.1 byte)
  · have hresult := hs.2.2.2
    rw [← hlength, overwrite_overwrite (by rw [hlength]; exact hfits), ← List.map_append, hlength,
      Nat.add_assoc, ← List.length_append] at hresult
    exact hresult
  · rintro ⟨byte, hbyte, hnot⟩
    exact ⟨byte, List.mem_append_right _ hbyte, hnot⟩

variable {readAt : Nat → Nat → Read lru Bytes} (h : ReadsFrom P media readable readAt)

include h

theorem copiesExtents_readExtents (hstart : extentStart < u64Limit)
    (hcopied : copied = min (extentStart - offset) toRead) (hbuf : toRead ≤ buf.length) :
    CopiesExtents P media readable offset toRead extents extentStart copied buf
      (readExtents readAt offset toRead extents extentStart copied buf) := by
  induction extents generalizing extentStart copied buf with
  | nil =>
    have hempty : window offset toRead [] extentStart = [] := by
      rw [window, List.flatMap_nil, slice, List.drop_nil, List.take_nil]
    unfold CopiesExtents
    rw [hempty]
    refine triple_pure fun s hs => ⟨hs, hstart, fun byte hbyte => absurd hbyte List.not_mem_nil, ?_⟩
    rw [List.map_nil, overwrite_nil]
    rfl
  | cons extent extents ih =>
    rw [readExtents]
    by_cases hend : extentStart + extent.dataSize < u64Limit
    · rw [checkedAdd_of_lt hend, okOr_some, fromResult_ok_bind]
      refine triple_ite (fun hskip => ?_) fun hpart => ?_
      · have hwindow : window offset toRead (extent :: extents) extentStart =
            [] ++ window offset toRead extents (extentStart + extent.dataSize) := by
          rw [window_cons, Nat.sub_eq_zero_of_le hskip, slice_zero]
        refine CopiesExtents.cons hwindow (fun byte hbyte => absurd hbyte List.not_mem_nil)
          (by simp only [List.length_nil]; omega) ?_
        rw [List.map_nil, overwrite_nil]
        exact ih hend (by simp only [List.length_nil]; omega) hbuf
      · have hfits : offset - extentStart + (min (offset + toRead)
            (extentStart + extent.dataSize) - max offset extentStart) ≤ extent.dataSize := by
          omega
        have hrelative : max offset extentStart - extentStart = offset - extentStart := by omega
        have houtput : max offset extentStart - offset = copied := by omega
        have hwindow := window_cons offset toRead extentStart extent extents
        rw [slice_content hfits] at hwindow
        dsimp only
        rw [hrelative, houtput]
        generalize hcount : min (offset + toRead) (extentStart + extent.dataSize) -
          max offset extentStart = count at hwindow hfits
        by_cases hsparse : extent.sparse = true
        · rw [if_pos hsparse] at hwindow ⊢
          have hlength : (List.replicate count FileByte.zero).length = count :=
            List.length_replicate
          have hvalues : (List.replicate count FileByte.zero).map (FileByte.value media) =
              List.replicate count 0 := List.map_replicate
          refine CopiesExtents.cons hwindow (fun byte hbyte => ?_) (by omega) ?_
          · rw [(List.mem_replicate.mp hbyte).2]
            trivial
          · rw [hvalues, hlength]
            refine ih hend (by omega) ?_
            rw [length_overwrite (by rw [List.length_replicate]; omega)]
            exact hbuf
        · rw [if_neg hsparse] at hwindow ⊢
          have hlength := length_mediaRun (extent.dataOffset + (offset - extentStart)) count
          by_cases hplace : extent.dataOffset + (offset - extentStart) < u64Limit
          · rw [checkedAdd_of_lt hplace, okOr_some, fromResult_ok_bind]
            refine Triple.bind ((triple_readWhole h count _ _).weaken (fun _ hs => hs)
              (fun _ _ hs => hs) fun _ s hs => ⟨hs.1, hs.2.1, .inr ?_⟩) fun bytes => ?_
            · obtain ⟨-, -, byte, hbyte, hnot⟩ := hs
              refine ⟨byte, ?_, hnot⟩
              rw [hwindow]
              exact List.mem_append_left _ hbyte
            · refine Triple.of_fact (fun hbytes => ?_) fun s hs => hs.2
              refine Triple.of_pre (P := P) ?_ fun s hs => hs.1
              obtain ⟨rfl, hreadable⟩ := hbytes
              refine CopiesExtents.cons hwindow hreadable (by omega) ?_
              rw [hlength]
              refine ih hend (by omega) ?_
              rw [length_overwrite (by rw [List.length_map]; omega)]
              exact hbuf
          · have hnone : checkedAdd extent.dataOffset (offset - extentStart) = none :=
              if_neg hplace
            rw [hnone, okOr_none]
            refine triple_fromResult_error _ fun s hs => ⟨hs, ⟨_, rfl⟩, .inr ?_⟩
            refine ⟨.media (extent.dataOffset + (offset - extentStart)), ?_,
              h.not_readable (Nat.le_of_not_lt hplace)⟩
            rw [hwindow]
            exact List.mem_append_left _ (mem_mediaRun.mpr ⟨0, by omega, rfl⟩)
    · have hnone : checkedAdd extentStart extent.dataSize = none := if_neg hend
      rw [hnone, okOr_none]
      refine triple_fromResult_error _ fun s hs => ⟨hs, ⟨_, rfl⟩, .inl ?_⟩
      rw [List.map_cons, List.sum_cons]
      omega

end Loop

/-! ## Reads of a file -/

section Files

variable {image : Image} {entry : SingleFileEntry}

theorem part_of_size {size : Nat} (hsize : singleFileSize entry = .ok size) (length offset : Nat) :
    image.part entry length offset =
      slice (image.content entry size) offset (min length (size - offset)) := by
  rw [Image.part, hsize]

theorem part_eq_nil {size length offset : Nat} (hsize : singleFileSize entry = .ok size)
    (hend : size ≤ offset) : image.part entry length offset = [] := by
  rw [part_of_size hsize, Nat.sub_eq_zero_of_le hend, Nat.min_zero, slice_zero]

theorem part_zero (offset : Nat) : image.part entry 0 offset = [] := by
  unfold Image.part
  split
  · rw [Nat.zero_min, slice_zero]
  · rfl

/-- What a read needs that does not end at once. -/
theorem granted_iff {media : Bytes} {readable : Nat → Prop} {size length offset : Nat}
    (hlength : length ≠ 0) (hsize : singleFileSize entry = .ok size) (hoffset : offset < size) :
    image.Granted entry media readable length offset ↔ image.ExtentsFit entry ∧
      (image.part entry length offset).length = min length (size - offset) ∧
      ∀ byte ∈ image.part entry length offset, byte.Readable media readable := by
  constructor
  · rintro (hzero | ⟨other, hother, hend⟩)
    · exact absurd hzero hlength
    · rw [hsize] at hother
      cases hother
      exact hend.resolve_left (Nat.not_le.mpr hoffset)
  · exact fun hrest => .inr ⟨size, hsize, .inr hrest⟩

/-- What a read needs of a file with a size: its part, and extents that fit unless the part is
empty. -/
theorem granted_iff_part {media : Bytes} {readable : Nat → Prop} {size : Nat}
    (hsize : singleFileSize entry = .ok size) (length offset : Nat) :
    image.Granted entry media readable length offset ↔
      (image.part entry length offset).length = min length (size - offset) ∧
      (∀ byte ∈ image.part entry length offset, byte.Readable media readable) ∧
      (min length (size - offset) = 0 ∨ image.ExtentsFit entry) := by
  by_cases hzero : min length (size - offset) = 0
  · have hpart : image.part entry length offset = [] := by
      rw [part_of_size hsize, hzero, slice_zero]
    have hgranted : image.Granted entry media readable length offset := by
      by_cases hlength : length = 0
      · exact .inl hlength
      · exact .inr ⟨size, hsize, .inl (by omega)⟩
    rw [hpart, hzero]
    exact ⟨fun _ => ⟨rfl, fun byte hbyte => absurd hbyte List.not_mem_nil, .inl rfl⟩,
      fun _ => hgranted⟩
  · rw [granted_iff (by omega) hsize (by omega)]
    constructor
    · rintro ⟨hfit, hcovered, hreadable⟩
      exact ⟨hcovered, hreadable, .inr hfit⟩
    · rintro ⟨hcovered, hreadable, hfit⟩
      exact ⟨hfit.resolve_left hzero, hcovered, hreadable⟩

/-! ## Reads that follow each other -/

/-- A part of more bytes goes on with what is asked for behind it. -/
theorem part_add {size first offset : Nat} (hsize : singleFileSize entry = .ok size)
    (hfirst : (image.part entry first offset).length = min first (size - offset)) (second : Nat) :
    image.part entry (first + second) offset = image.part entry first offset ++
      image.part entry second (offset + (image.part entry first offset).length) := by
  have hsum : min (first + second) (size - offset) =
      min first (size - offset) + min second (size - (offset + min first (size - offset))) := by
    omega
  rw [hfirst, part_of_size hsize, part_of_size hsize, part_of_size hsize, hsum,
    slice_append_slice]

/-- A read of a file without a size needs to be empty. -/
theorem granted_iff_zero {media : Bytes} {readable : Nat → Prop} {e : EwfError}
    (hsize : singleFileSize entry = .error e) (length offset : Nat) :
    image.Granted entry media readable length offset ↔ length = 0 := by
  refine ⟨fun hgranted => hgranted.elim id ?_, .inl⟩
  rintro ⟨size, hother, -⟩
  rw [hsize] at hother
  cases hother

theorem part_add_of_granted {media : Bytes} {readable : Nat → Prop} {first offset : Nat}
    (h : image.Granted entry media readable first offset) (second : Nat) :
    image.part entry (first + second) offset = image.part entry first offset ++
      image.part entry second (offset + (image.part entry first offset).length) := by
  cases hsize : singleFileSize entry with
  | error e =>
    have hnil : ∀ length offset, image.part entry length offset = [] := by
      intro length offset
      rw [Image.part, hsize]
    rw [hnil, hnil, hnil, List.append_nil]
  | ok size => exact part_add hsize ((granted_iff_part hsize first offset).mp h).1 second

/-- A read is granted when its first bytes and those behind them are. -/
theorem granted_add {media : Bytes} {readable : Nat → Prop} (first second offset : Nat) :
    image.Granted entry media readable (first + second) offset ↔
      image.Granted entry media readable first offset ∧
        image.Granted entry media readable second
          (offset + (image.part entry first offset).length) := by
  cases hsize : singleFileSize entry with
  | error e =>
    rw [granted_iff_zero hsize, granted_iff_zero hsize, granted_iff_zero hsize]
    omega
  | ok size =>
    have hsum : min (first + second) (size - offset) =
        min first (size - offset) + min second (size - (offset + min first (size - offset))) := by
      omega
    rw [granted_iff_part hsize, granted_iff_part hsize first, granted_iff_part hsize second]
    constructor
    · rintro ⟨hcovered, hreadable, hfit⟩
      have hfirst : (image.part entry first offset).length = min first (size - offset) := by
        rw [part_of_size hsize, length_slice] at hcovered ⊢
        omega
      rw [part_add hsize hfirst] at hcovered hreadable
      rw [List.length_append] at hcovered
      refine ⟨⟨hfirst, fun byte hbyte => hreadable byte (List.mem_append_left _ hbyte), ?_⟩, ?_,
        fun byte hbyte => hreadable byte (List.mem_append_right _ hbyte), ?_⟩
      · exact hfit.imp (by omega) id
      · rw [hfirst] at hcovered ⊢
        omega
      · rw [hfirst]
        exact hfit.imp (by omega) id
    · rintro ⟨⟨hfirst, hreadable, hfit⟩, hsecond, hbehind, hfit'⟩
      rw [part_add hsize hfirst, List.length_append]
      rw [hfirst] at hsecond hbehind hfit' ⊢
      refine ⟨by omega, fun byte hbyte => ?_, ?_⟩
      · exact (List.mem_append.mp hbyte).elim (hreadable byte) (hbehind byte)
      · rcases hfit with hzero | hfit
        · rcases hfit' with hzero' | hfit'
          · exact .inl (by omega)
          · exact .inr hfit'
        · exact .inr hfit

theorem content_of_duplicate {position : Nat} (h : image.duplicateData entry = some position)
    (size : Nat) : image.content entry size = mediaRun position size := by
  rw [Image.content, h]

theorem content_of_repeated (hnone : image.duplicateData entry = none)
    (hsparse : image.ewf1LogicalSparse entry = true) (size : Nat) :
    image.content entry size = match storedByte entry with
      | some extent => List.replicate size (.media extent.dataOffset)
      | none => [] := by
  rw [Image.content, hnone]
  exact if_pos hsparse

theorem content_of_extents (hnone : image.duplicateData entry = none)
    (hsparse : image.ewf1LogicalSparse entry ≠ true) (size : Nat) :
    image.content entry size = (entry.extents.flatMap SingleFileExtent.content).take size := by
  rw [Image.content, hnone]
  exact if_neg hsparse

section Parts

variable (P : Reader lru → Prop) (media : Bytes) (readable : Nat → Prop)

/-- The computation copies the part to the front of the buffer when it has all of the bytes that
are to be read and they can be read, and fails otherwise. -/
def ReturnsPart (part : List FileByte) (toRead : Nat) (buf : Bytes) (x : Read lru (Nat × Bytes)) :
    Prop :=
  Triple P x
    (fun result s => P s ∧ (part.length = toRead ∧ ∀ byte ∈ part, byte.Readable media readable) ∧
      result = (part.length, overwrite buf 0 (part.map (FileByte.value media))))
    fun stop s => P s ∧ stop.IsError ∧
      ¬ (part.length = toRead ∧ ∀ byte ∈ part, byte.Readable media readable)

variable {P media readable} {readAt : Nat → Nat → Read lru Bytes}

theorem returnsPart_not_stored (hstored : storedByte entry = none) {toRead : Nat} (buf : Bytes)
    (hpos : 0 < toRead) :
    ReturnsPart P media readable [] toRead buf (readRepeatedByte readAt entry toRead buf) := by
  unfold ReturnsPart readRepeatedByte
  rw [hstored, okOr_none]
  refine triple_fromResult_error _ fun s hs => ⟨hs, ⟨_, rfl⟩, fun hall => ?_⟩
  exact absurd hall.1 (Nat.ne_of_lt hpos)

variable (h : ReadsFrom P media readable readAt)

include h

theorem returnsPart_duplicate (position : Nat) {toRead : Nat} (buf : Bytes) (offset : Nat)
    (hpos : 0 < toRead) : ReturnsPart P media readable (mediaRun (position + offset) toRead) toRead
      buf (readDuplicateData readAt position toRead buf offset) := by
  have hlength := length_mediaRun (position + offset) toRead
  unfold ReturnsPart readDuplicateData
  rw [hlength]
  by_cases hplace : position + offset < u64Limit
  · rw [checkedAdd_of_lt hplace, okOr_some, fromResult_ok_bind]
    refine Triple.bind ((triple_readWhole h toRead _ _).weaken (fun _ hs => hs)
      (fun _ _ hs => hs) fun _ s hs => ⟨hs.1, hs.2.1, fun hall => ?_⟩) fun bytes => ?_
    · obtain ⟨-, -, byte, hbyte, hnot⟩ := hs
      exact hnot (hall.2 byte hbyte)
    · refine Triple.of_fact (fun hbytes => ?_) fun s hs => hs.2
      obtain ⟨rfl, hreadable⟩ := hbytes
      exact triple_pure fun s hs => ⟨hs.1, ⟨rfl, hreadable⟩, rfl⟩
  · have hnone : checkedAdd position offset = none := if_neg hplace
    rw [hnone, okOr_none]
    refine triple_fromResult_error _ fun s hs => ⟨hs, ⟨_, rfl⟩, fun hall => ?_⟩
    exact h.not_readable (Nat.le_of_not_lt hplace) (hall.2 _ (mem_mediaRun.mpr ⟨0, hpos, rfl⟩))

theorem returnsPart_repeated {extent : SingleFileExtent} (hstored : storedByte entry = some extent)
    {toRead : Nat} (buf : Bytes) (hpos : 0 < toRead) :
    ReturnsPart P media readable (List.replicate toRead (.media extent.dataOffset)) toRead buf
      (readRepeatedByte readAt entry toRead buf) := by
  have hbyte : mediaRun extent.dataOffset 1 = [.media extent.dataOffset] := rfl
  unfold ReturnsPart readRepeatedByte
  rw [hstored, okOr_some, fromResult_ok_bind, List.length_replicate]
  refine Triple.bind ((triple_readWhole h 1 _ _).weaken (fun _ hs => hs)
    (fun _ _ hs => hs) fun _ s hs => ⟨hs.1, hs.2.1, fun hall => ?_⟩) fun bytes => ?_
  · obtain ⟨-, -, byte, hmem, hnot⟩ := hs
    rw [hbyte, List.mem_singleton] at hmem
    subst hmem
    exact hnot (hall.2 _ (List.mem_replicate.mpr ⟨Nat.ne_of_gt hpos, rfl⟩))
  · refine Triple.of_fact (fun hbytes => ?_) fun s hs => hs.2
    obtain ⟨rfl, hreadable⟩ := hbytes
    refine triple_pure fun s hs => ⟨hs.1, ⟨rfl, fun byte hmem => ?_⟩, ?_⟩
    · rw [(List.mem_replicate.mp hmem).2]
      exact hreadable _ (by rw [hbyte]; exact List.mem_singleton_self _)
    · rw [List.map_replicate]
      rfl

/-- The extents give their part when they end in the range of offsets, and fail otherwise. -/
theorem triple_readCoveringExtents {toRead : Nat} (buf : Bytes) (offset : Nat)
    (hbuf : toRead ≤ buf.length) :
    Triple P (readCoveringExtents readAt entry toRead buf offset)
      (fun result s => P s ∧ ((entry.extents.map SingleFileExtent.dataSize).sum < u64Limit ∧
        (window offset toRead entry.extents 0).length = toRead ∧
        ∀ byte ∈ window offset toRead entry.extents 0, byte.Readable media readable) ∧
        result = ((window offset toRead entry.extents 0).length,
          overwrite buf 0 ((window offset toRead entry.extents 0).map (FileByte.value media))))
      fun stop s => P s ∧ stop.IsError ∧
        ¬ ((entry.extents.map SingleFileExtent.dataSize).sum < u64Limit ∧
          (window offset toRead entry.extents 0).length = toRead ∧
          ∀ byte ∈ window offset toRead entry.extents 0, byte.Readable media readable) := by
  have hcopies : CopiesExtents P media readable offset toRead entry.extents 0 0 buf
      (readExtents readAt offset toRead entry.extents 0 0 buf) :=
    copiesExtents_readExtents h (by decide) (by omega) hbuf
  unfold CopiesExtents at hcopies
  rw [Nat.zero_add] at hcopies
  refine Triple.bind (hcopies.weaken (fun _ hs => hs) (fun _ _ hs => hs)
    fun _ s hs => ⟨hs.1, hs.2.1, fun hall => ?_⟩) fun result => ?_
  · rcases hs.2.2 with hlate | ⟨byte, hbyte, hnot⟩
    · exact absurd hall.1 (Nat.not_lt.mpr hlate)
    · exact hnot (hall.2.2 byte hbyte)
  · refine Triple.of_fact (fun hresult => ?_) fun s hs => hs.2
    obtain ⟨hsum, hreadable, rfl⟩ := hresult
    dsimp only
    rw [Nat.zero_add]
    refine triple_ite (fun hshort => ?_) fun hall => ?_
    · exact triple_throw fun s hs => ⟨hs.1, ⟨_, rfl⟩, fun hall => hshort hall.2.1⟩
    · exact triple_pure fun s hs => ⟨hs.1, ⟨hsum, not_not.mp hall, hreadable⟩, rfl⟩

/-- A read returns its part of the content when it is granted, and fails otherwise. -/
theorem triple_readSingleFileAtImpl (image : Image) (entry : SingleFileEntry) (buf : Bytes)
    (offset : Nat) :
    Triple P (readSingleFileAtImpl readAt image entry buf offset)
      (fun result s => P s ∧ image.Granted entry media readable buf.length offset ∧
        result = ((image.part entry buf.length offset).length,
          overwrite buf 0 ((image.part entry buf.length offset).map (FileByte.value media))))
      fun stop s => P s ∧ stop.IsError ∧
        ¬ image.Granted entry media readable buf.length offset := by
  refine h.ensureNotAborted (triple_ite (fun hempty => ?_) fun hbuf => ?_)
  · subst hempty
    refine triple_pure fun s hs => ⟨hs, .inl rfl, ?_⟩
    rw [List.length_nil, part_zero]
    rfl
  have hlength : buf.length ≠ 0 := fun hzero => hbuf (List.length_eq_zero_iff.mp hzero)
  cases hsize : singleFileSize entry with
  | error e =>
    refine triple_fromResult_error _ fun s hs => ⟨hs, ⟨e, rfl⟩, ?_⟩
    rintro (hzero | ⟨size, hother, -⟩)
    · exact hlength hzero
    · rw [hsize] at hother
      cases hother
  | ok size =>
    rw [fromResult_ok_bind]
    refine triple_ite (fun hend => ?_) fun hoffset => ?_
    · refine triple_pure fun s hs => ⟨hs, .inr ⟨size, hsize, .inl hend⟩, ?_⟩
      rw [part_eq_nil hsize hend, List.map_nil, overwrite_nil]
      rfl
    have hlt : offset < size := Nat.lt_of_not_le hoffset
    have hgranted : image.Granted entry media readable buf.length offset ↔ _ :=
      granted_iff hlength hsize hlt
    have hpart : image.part entry buf.length offset = _ := part_of_size hsize buf.length offset
    have hle : min buf.length (size - offset) ≤ buf.length := Nat.min_le_left _ _
    have hfits : offset + min buf.length (size - offset) ≤ size := by omega
    have hpos : 0 < min buf.length (size - offset) := by omega
    generalize min buf.length (size - offset) = toRead at hgranted hpart hle hfits hpos
    dsimp only
    rw [hgranted]
    cases hduplicate : image.duplicateData entry with
    | some position =>
      have hextents : image.ExtentsFit entry := by
        intro hnone
        rw [hduplicate] at hnone
        cases hnone
      rw [hpart, content_of_duplicate hduplicate, slice_mediaRun hfits]
      refine (returnsPart_duplicate h position buf offset hpos).weaken (fun _ hs => hs)
        (fun _ s hs => ⟨hs.1, ⟨hextents, hs.2.1⟩, hs.2.2⟩)
        fun _ s hs => ⟨hs.1, hs.2.1, fun hall => hs.2.2 hall.2⟩
    | none =>
      refine triple_ite (fun hsparse => ?_) fun hsparse => ?_
      · have hextents : image.ExtentsFit entry := by
          intro _ hplain
          rw [hsparse] at hplain
          cases hplain
        have hreturns : ReturnsPart P media readable
            (slice (image.content entry size) offset toRead) toRead buf
            (readRepeatedByte readAt entry toRead buf) := by
          rw [content_of_repeated hduplicate hsparse]
          cases hstored : storedByte entry with
          | none =>
            rw [slice, List.drop_nil, List.take_nil]
            exact returnsPart_not_stored hstored buf hpos
          | some extent =>
            dsimp only
            rw [slice_replicate hfits]
            exact returnsPart_repeated h hstored buf hpos
        rw [hpart]
        exact hreturns.weaken (fun _ hs => hs) (fun _ s hs => ⟨hs.1, ⟨hextents, hs.2.1⟩, hs.2.2⟩)
          fun _ s hs => ⟨hs.1, hs.2.1, fun hall => hs.2.2 hall.2⟩
      · have hrun : slice (image.content entry size) offset toRead =
            window offset toRead entry.extents 0 := by
          have hsame : offset + toRead - max offset 0 = toRead := by omega
          rw [content_of_extents hduplicate hsparse, window, hsame, Nat.sub_zero, slice, slice,
            List.drop_take, List.take_take, Nat.min_eq_left (by omega)]
        have hextents : image.ExtentsFit entry ↔
            (entry.extents.map SingleFileExtent.dataSize).sum < u64Limit :=
          ⟨fun hfit => hfit hduplicate (Bool.not_eq_true _ ▸ hsparse), fun hsum _ _ => hsum⟩
        rw [hpart, hrun, hextents]
        exact triple_readCoveringExtents h buf offset hle

end Parts

end Files

end EwfImage.Reading

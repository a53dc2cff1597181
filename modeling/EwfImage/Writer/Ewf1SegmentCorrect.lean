import EwfImage.Format.Ewf1Chain

/-!
# The written segment is a section chain

The offsets that `write_ewf1_segment` computes ahead of the data are the places where
the sections then start, so every descriptor links to the next one. The chunks fall
into table groups; each group is a `sectors` section with its chunks, one behind the
other, and a table that describes them.

The main results are `writeEwf1Segment_sections` and the `SegmentShape` that it gives: metadata
sections, table groups, metadata sections and a terminal section, all linked.
`sectionsBefore_appends`, `writeTableGroups_appends` and `sectionsAfter_appends` are its three
parts. Nothing is assumed of the payloads and chunks.
-/

namespace EwfImage.Ewf1

open Fallible LittleEndian Slice Word

/-! ## Offsets of optional sections -/

def optionalSize : Option Bytes → Nat
  | none => 0
  | some payload => sectionDescriptorSize + payload.length

@[simp] theorem chainSize_optionalSection (name : SectionName) (payload : Option Bytes) :
    chainSize (optionalSection name payload) = optionalSize payload := by
  cases payload <;> simp [optionalSection, optionalSize, ChainSection.size]

theorem descOffsetBehind_eq {label : String} {offset behind : Nat} {payload : Option Bytes}
    (h : descOffsetBehind label offset payload = .ok behind) :
    behind = offset + optionalSize payload := by
  cases payload with
  | none =>
    cases h
    rfl
  | some payload =>
    simp only [descOffsetBehind, okOr_eq_ok, Option.bind_eq_some_iff, checkedAdd_eq_some] at h
    obtain ⟨_, ⟨_, rfl⟩, _, rfl⟩ := h
    simp [optionalSize, Nat.add_assoc]

/-- Optional sections that follow one another up to `last`, with their offsets. -/
inductive OffsetsFrom (last : Nat) : Nat → List (Option Bytes × Nat) → Prop
  | nil : OffsetsFrom last last []
  | cons {offset next : Nat} {payload : Option Bytes} {sections : List (Option Bytes × Nat)}
      (hnext : next = offset + optionalSize payload) (hrest : OffsetsFrom last next sections) :
      OffsetsFrom last offset ((payload, offset) :: sections)

/-- Whichever of the sections is the first present one, it starts at `start`. -/
theorem firstPresent_eq {last start : Nat} {sections : List (Option Bytes × Nat)}
    (h : OffsetsFrom last start sections) : firstPresent last sections = start := by
  induction h with
  | nil => rfl
  | @cons offset next payload sections hnext _ ih =>
    cases payload with
    | none =>
      rw [firstPresent, if_neg (by simp), ih, hnext]
      rfl
    | some payload => rfl

/-! ## The volume section -/

theorem length_volumeData {options : WriteOptions} {chunkCount : UInt32} {sectorCount : Nat}
    {volume : Bytes} (h : volumeData options chunkCount sectorCount = .ok volume) :
    volume.length = volumeDataSizeOf options.format := by
  have hbody : ∀ body : Bytes, body.length = volumeDataSizeOf options.format →
      (body.take (body.length - 4) ++ toLE 4 (adler32 (body.take (body.length - 4)))).length =
        volumeDataSizeOf options.format := by
    intro body hlen
    have hsize : 4 ≤ volumeDataSizeOf options.format := by
      cases options.format <;> decide
    rw [List.length_append, List.length_take, length_toLE]
    omega
  simp only [volumeData, bind_eq_ok, rejectIf_eq_ok, pure_eq_ok, Except.ok.injEq] at h
  obtain ⟨_, _, _, _, rfl⟩ := h
  refine hbody _ ?_
  by_cases hsmart : options.format = .ewf1Smart
  · simp only [hsmart, if_true]
    cases options.setIdentifier <;> simp
  · simp only [hsmart, if_false]
    cases options.setIdentifier <;> cases options.mediaProfile.errorGranularity <;> simp

/-! ## Tables -/

theorem length_tableHeader (chunkCount sectorsDataOffset : Nat) :
    (tableHeader chunkCount sectorsDataOffset).length = 24 := by
  simp [tableHeader]

theorem length_ewf1TableEntries {chunks : List ChunkDescriptor} {relativeOffset : Nat}
    {entries : Bytes} (h : ewf1TableEntries chunks relativeOffset = .ok entries) :
    entries.length = 4 * chunks.length := by
  induction chunks generalizing relativeOffset entries with
  | nil =>
    cases h
    rfl
  | cons chunk chunks ih =>
    simp only [ewf1TableEntries, bind_eq_ok, rejectIf_eq_ok, okOr_eq_ok, checkedAdd_eq_some,
      pure_eq_ok, Except.ok.injEq] at h
    obtain ⟨_, _, _, _, _, ⟨_, rfl⟩, rest, hrest, rfl⟩ := h
    rw [List.length_append, length_toLE, ih hrest, List.length_cons]
    omega

theorem length_ewf1TableData {chunkCount sectorsDataOffset : Nat} {chunks : List ChunkDescriptor}
    {includeFooter : Bool} {table : Bytes}
    (h : ewf1TableData chunkCount sectorsDataOffset chunks includeFooter = .ok table) :
    table.length = 24 + 4 * chunks.length + if includeFooter then 4 else 0 := by
  simp only [ewf1TableData, bind_eq_ok, pure_eq_ok, Except.ok.injEq] at h
  obtain ⟨entries, hentries, rfl⟩ := h
  rw [List.length_append, List.length_append, length_tableHeader, length_ewf1TableEntries hentries]
  cases includeFooter <;> simp

/-! ## Table groups -/

/-- A table group as it is written. -/
structure TableGroup where
  chunks : List ChunkDescriptor
  data : Bytes
  table : Bytes

def TableGroup.sections (writesTable2 : Bool) (group : TableGroup) : List ChainSection :=
  ⟨.sectors, group.data⟩ :: ⟨.table, group.table⟩ ::
    if writesTable2 then [⟨.table2, group.table⟩] else []

/-- The group describes its chunks when it starts at `offset`. -/
structure TableGroup.ValidAt (spool : Bytes) (hasFooter : Bool) (offset : Nat)
    (group : TableGroup) : Prop where
  data : Holds spool group.chunks group.data
  table : ewf1TableData group.chunks.length (offset + sectionDescriptorSize) group.chunks
    hasFooter = .ok group.table
  count : group.chunks.length < u32Limit
  payload : group.chunks.length ≤ 1 ∨ storedSize group.chunks ≤ ewf1TableGroupMaxPayload

/-- Groups one behind the other from `offset`, each describing its chunks. -/
def ValidFrom (spool : Bytes) (hasFooter writesTable2 : Bool) : Nat → List TableGroup → Prop
  | _, [] => True
  | offset, group :: groups => group.ValidAt spool hasFooter offset ∧
      ValidFrom spool hasFooter writesTable2 (offset + chainSize (group.sections writesTable2))
        groups

/-- The offsets of the chunks of groups from `offset`. -/
def groupPlacements (writesTable2 : Bool) : Nat → List TableGroup → List Nat
  | _, [] => []
  | offset, group :: groups => consecutive (offset + sectionDescriptorSize) group.chunks ++
      groupPlacements writesTable2 (offset + chainSize (group.sections writesTable2)) groups

/-- The groups cut the chunks from `start` on into consecutive parts. -/
def Cuts (chunks : List ChunkDescriptor) (maxPayload : Nat) : Nat → List Ewf1TableGroup → Prop
  | start, [] => start = chunks.length
  | start, group :: groups => group.firstChunk = start ∧ start ≤ group.endChunk ∧
      group.endChunk ≤ chunks.length ∧
      group.payloadSize = storedSize ((chunks.take group.endChunk).drop start) ∧
      (group.endChunk - start ≤ 1 ∨ group.payloadSize ≤ maxPayload) ∧
      Cuts chunks maxPayload group.endChunk groups

/-- The state of the grouping loop with `pending` in the open group. -/
structure Pending (maxPayload : Nat) (state : Ewf1TableGroupState)
    (pending : List ChunkDescriptor) : Prop where
  entries : state.currentEntryCount = pending.length
  payload : state.currentPayloadSize = storedSize pending
  counted : pending ≠ [] → 0 < state.groupCount
  bounded : pending.length ≤ 1 ∨ storedSize pending ≤ maxPayload

/-- A chunk is put behind the pending ones or opens a group of its own. -/
theorem Pending.addChunk {maxEntries maxPayload : Nat} {state next : Ewf1TableGroupState}
    {pending : List ChunkDescriptor} {chunk : ChunkDescriptor} (h : Pending maxPayload state pending)
    (hadd : state.addChunk chunk.dataSize maxEntries maxPayload = .ok next) :
    (state.groupCount < next.groupCount ∧ state.currentEntryCount ≠ 0 ∧
        Pending maxPayload next [chunk]) ∨
      (¬ (state.groupCount < next.groupCount ∧ state.currentEntryCount ≠ 0) ∧
        Pending maxPayload next (pending ++ [chunk])) := by
  simp only [Ewf1TableGroupState.addChunk, bind_eq_ok, okOr_eq_ok, checkedAdd_eq_some] at hadd
  obtain ⟨proposed, ⟨_, rfl⟩, hadd⟩ := hadd
  split at hadd
  · rename_i hfull
    simp only [bind_eq_ok, okOr_eq_ok, checkedAdd_eq_some, pure_eq_ok, Except.ok.injEq] at hadd
    obtain ⟨_, ⟨_, rfl⟩, rfl⟩ := hadd
    refine .inl ⟨Nat.lt_succ_self _, hfull.1, rfl, by simp, by simp, .inl (by simp)⟩
  · rename_i hopen
    simp only [bind_eq_ok, okOr_eq_ok, checkedAdd_eq_some, pure_eq_ok, Except.ok.injEq] at hadd
    obtain ⟨_, ⟨_, rfl⟩, rfl⟩ := hadd
    refine .inr ⟨?_, ?_, ?_, ?_, ?_⟩
    · rintro ⟨hlt, hne⟩
      have hpositive : pending ≠ [] := by
        rintro rfl
        exact hne h.entries
      have hcounted := h.counted hpositive
      simp only at hlt
      omega
    · simp [h.entries]
    · simp [h.payload, storedSize_append]
    · intro _
      exact Nat.lt_of_lt_of_le Nat.zero_lt_one (Nat.le_max_right _ _)
    · rw [h.payload] at hopen
      by_cases hempty : pending = []
      · left
        simp [hempty]
      · right
        have hne : state.currentEntryCount ≠ 0 := by
          rw [h.entries]
          exact fun hzero => hempty (List.length_eq_zero_iff.mp hzero)
        have hle : ¬ maxPayload < storedSize pending + chunk.dataSize :=
          fun hlt => hopen ⟨hne, .inr hlt⟩
        rw [storedSize_append, storedSize_cons, storedSize_nil]
        omega

theorem cuts_cons {maxPayload endChunk : Nat} {before pending rest : List ChunkDescriptor}
    {groups : List Ewf1TableGroup} {payloadSize : Nat}
    (hend : endChunk = before.length + pending.length) (hpayload : payloadSize = storedSize pending)
    (hbounded : pending.length ≤ 1 ∨ storedSize pending ≤ maxPayload)
    (h : Cuts (before ++ pending ++ rest) maxPayload endChunk groups) :
    Cuts (before ++ pending ++ rest) maxPayload before.length
      (⟨before.length, endChunk, payloadSize⟩ :: groups) := by
  subst hend hpayload
  have hpart : ((before ++ pending ++ rest).take (before.length + pending.length)).drop
      before.length = pending := by
    have hfront : (before ++ pending ++ rest).take (before.length + pending.length) =
        before ++ pending := by
      rw [← List.length_append, List.take_left]
    rw [hfront, List.drop_left]
  refine ⟨rfl, Nat.le_add_right _ _, by simp, by rw [hpart], ?_, h⟩
  rcases hbounded with hone | hle
  · left
    simp only
    omega
  · exact .inr hle

theorem ewf1TableGroupsFrom_cuts {maxEntries maxPayload : Nat} {rest : List ChunkDescriptor}
    (before pending : List ChunkDescriptor) {state : Ewf1TableGroupState}
    {groups : List Ewf1TableGroup} (hpending : Pending maxPayload state pending)
    (h : ewf1TableGroupsFrom maxEntries maxPayload rest (before.length + pending.length)
      before.length state = .ok groups) :
    Cuts (before ++ pending ++ rest) maxPayload before.length groups := by
  induction rest generalizing before pending state groups with
  | nil =>
    cases h
    refine cuts_cons rfl hpending.payload hpending.bounded ?_
    simp [Cuts]
  | cons chunk rest ih =>
    obtain ⟨next, hadd, h⟩ := bind_eq_ok.mp h
    rcases hpending.addChunk hadd with ⟨hlt, hne, hnext⟩ | ⟨hnot, hnext⟩
    · rw [if_pos ⟨hlt, hne⟩] at h
      obtain ⟨others, hothers, h⟩ := bind_eq_ok.mp h
      cases h
      have hrest := ih (before ++ pending) [chunk] hnext (by simpa using hothers)
      rw [List.append_assoc, List.singleton_append, List.length_append] at hrest
      exact cuts_cons rfl hpending.payload hpending.bounded hrest
    · rw [if_neg hnot] at h
      have hrest := ih before (pending ++ [chunk]) hnext (by simpa [Nat.add_assoc] using h)
      simpa [List.append_assoc] using hrest

theorem ewf1TableGroups_cuts {chunks : List ChunkDescriptor} {maxEntries maxPayload : Nat}
    {groups : List Ewf1TableGroup} (h : ewf1TableGroups chunks maxEntries maxPayload = .ok groups) :
    Cuts chunks maxPayload 0 groups := by
  have hpending : Pending maxPayload {} [] := ⟨rfl, rfl, by simp, .inl (by simp)⟩
  exact ewf1TableGroupsFrom_cuts [] [] hpending h

/-! ## Layouts -/

theorem layout_eq {group : Ewf1TableGroup} {cursor footerBytes : Nat} {writesTable2 : Bool}
    {layout : Ewf1TableGroupLayout}
    (h : group.layout cursor footerBytes writesTable2 = .ok layout) :
    layout.firstChunk = group.firstChunk ∧ layout.endChunk = group.endChunk ∧
      layout.payloadSize = group.payloadSize ∧ layout.sectorsDescOffset = cursor ∧
      layout.sectorsDataOffset = cursor + sectionDescriptorSize ∧
      layout.tableDescOffset = cursor + sectionDescriptorSize + group.payloadSize ∧
      layout.tableDataSize = 24 + (group.endChunk - group.firstChunk) * 4 + footerBytes ∧
      layout.table2DescOffset = (if writesTable2 then
        some (layout.tableDescOffset + sectionDescriptorSize + layout.tableDataSize) else none) ∧
      layout.endOffset = layout.tableDescOffset + sectionDescriptorSize + layout.tableDataSize +
        if writesTable2 then sectionDescriptorSize + layout.tableDataSize else 0 := by
  simp only [Ewf1TableGroup.layout, bind_eq_ok, okOr_eq_ok, checkedMul_eq_some,
    checkedAdd_eq_some, Option.bind_eq_some_iff, pure_eq_ok] at h
  obtain ⟨_, ⟨_, rfl⟩, _, ⟨_, ⟨_, rfl⟩, _, rfl⟩, _, ⟨_, rfl⟩, _, ⟨_, rfl⟩, _,
    ⟨_, ⟨_, rfl⟩, _, rfl⟩, ⟨_, _⟩, hsecond, h⟩ := h
  cases h
  cases writesTable2 with
  | true =>
    simp only [if_true, bind_eq_ok, okOr_eq_ok, Option.bind_eq_some_iff, checkedAdd_eq_some,
      Except.ok.injEq, Prod.mk.injEq] at hsecond
    obtain ⟨_, ⟨_, ⟨_, rfl⟩, _, rfl⟩, rfl, rfl⟩ := hsecond
    simp [Nat.add_assoc]
  | false =>
    cases hsecond
    simp

/-! ## Writing a group -/

/-- One table group is written as three or two sections. -/
theorem writeTableGroup_appends {spool : Bytes} {chunks : List ChunkDescriptor}
    {group : Ewf1TableGroup} {layout : Ewf1TableGroupLayout} {footerBytes next : Nat}
    {hasFooter writesTable2 : Bool} {out out' : SegmentOutput Bytes}
    (hlayout : group.layout out.bytes.length footerBytes writesTable2 = .ok layout)
    (hfooter : footerBytes = if hasFooter then 4 else 0)
    (htable2 : writesTable2 = true → hasFooter = true)
    (hlen : group.endChunk - group.firstChunk = (groupChunks chunks layout).length)
    (hpayload : group.payloadSize = storedSize (groupChunks chunks layout))
    (hbounded : (groupChunks chunks layout).length ≤ 1 ∨
      storedSize (groupChunks chunks layout) ≤ ewf1TableGroupMaxPayload)
    (hnext : next = layout.endOffset)
    (h : writeTableGroup spool chunks footerBytes layout next out = .ok out') :
    ∃ written : TableGroup, written.chunks = groupChunks chunks layout ∧
      written.ValidAt spool hasFooter out.bytes.length ∧
      layout.endOffset = out.bytes.length + chainSize (written.sections writesTable2) ∧
      Appends out out' (written.sections writesTable2)
        (consecutive (out.bytes.length + sectionDescriptorSize) written.chunks) := by
  obtain ⟨_, _, hlayoutPayload, _, hdata, htableDesc, htableSize, htable2Desc, hend⟩ :=
    layout_eq hlayout
  generalize hgroup : groupChunks chunks layout = part at *
  have hflag : decide (footerBytes ≠ 0) = hasFooter := by
    rw [hfooter]
    cases hasFooter <;> rfl
  simp only [writeTableGroup, bind_eq_ok, rejectIf_eq_ok, pure_eq_ok, hgroup, hdata, hflag] at h
  obtain ⟨_, hcount, copied, hcopy, table, htable, h⟩ := h
  obtain ⟨data, hholds, hbytes, hdescriptors, hplacements⟩ := copyChunks_spec hcopy
  have hdatalen := hholds.length
  have htablelen := length_ewf1TableData htable
  have hsize : layout.tableDataSize = table.length := by
    rw [htableSize, htablelen, hfooter, hlen, Nat.mul_comm]
  have hdatasize : layout.payloadSize = data.length := by
    rw [hlayoutPayload, hpayload, hdatalen]
  have hfirst : layout.tableDescOffset = out.bytes.length + (sectionDescriptorSize + data.length) := by
    rw [htableDesc, hpayload, hdatalen, Nat.add_assoc]
  have hsectors : Appends out copied [⟨.sectors, data⟩]
      (consecutive (out.bytes.length + sectionDescriptorSize) part) := by
    have hdesclen : (sectionDesc (ascii "sectors") layout.tableDescOffset
        (sectionDescriptorSize + layout.payloadSize)).length = sectionDescriptorSize :=
      length_sectionDesc _ _ (SectionName.length_type .sectors)
    refine Appends.single .sectors layout.tableDescOffset
      (sectionDescriptorSize + layout.payloadSize) ?_ hdescriptors ?_ ?_ ?_
    · rw [hbytes]
      simp [SectionName.type]
    · rw [hplacements, SegmentOutput.bytes_writeDescriptor, List.length_append, hdesclen]
      rfl
    · rw [hdatasize]
    · rw [hfirst, hdatasize]
  have hcopied : copied.bytes.length = layout.tableDescOffset := by
    rw [hsectors.length, hfirst, chainSize_cons, chainSize_nil]
    rfl
  refine ⟨⟨part, data, table⟩, rfl, ⟨hholds, htable, Nat.lt_of_not_le hcount, hbounded⟩, ?_, ?_⟩
  · rw [hend, hfirst, hsize]
    cases writesTable2 with
    | true => simp [TableGroup.sections, ChainSection.size, Nat.add_assoc]
    | false => simp [TableGroup.sections, ChainSection.size, Nat.add_assoc]
  · -- The table is linked to its copy or to the next group.
    have htableAppends : ∀ link,
        link = layout.tableDescOffset + sectionDescriptorSize + layout.tableDataSize →
        Appends copied ((copied.writeDescriptor (ascii "table") (sectionDesc (ascii "table") link
          (sectionDescriptorSize + layout.tableDataSize))).writeAll table) [⟨.table, table⟩] [] := by
      intro link hlink
      refine writeDescriptor_writeAll_appends .table (by rw [hsize]) ?_
      rw [hlink, hcopied, Nat.add_assoc]
    cases writesTable2 with
    | true =>
      have hfoot := htable2 rfl
      subst hfoot
      rw [if_pos rfl] at htable2Desc hend
      rw [htable2Desc] at h
      simp only [Option.isSome_some, if_true, bind_eq_ok, Option.getD_some] at h
      obtain ⟨table2, hcopyTable, h⟩ := h
      have hsame : table2 = table := Except.ok.inj (hcopyTable.symm.trans htable)
      subst hsame
      cases h
      have hlinked := htableAppends _ rfl
      have hlength := hlinked.length
      rw [chainSize_cons, chainSize_nil, Nat.add_zero, ChainSection.size, hcopied] at hlength
      have hsecond : ∀ middle : SegmentOutput Bytes, middle.bytes.length =
          layout.tableDescOffset + (sectionDescriptorSize + table2.length) →
          Appends middle ((middle.writeDescriptor (ascii "table2") (sectionDesc (ascii "table2")
            next (sectionDescriptorSize + layout.tableDataSize))).writeAll table2)
            [⟨.table2, table2⟩] [] := by
        intro middle hmiddle
        refine writeDescriptor_writeAll_appends .table2 (by rw [hsize]) ?_
        rw [hnext, hend, hmiddle, hsize]
        omega
      have hfull := (hsectors.trans hlinked).trans (hsecond _ hlength)
      rw [List.append_nil, List.append_nil] at hfull
      exact hfull
    | false =>
      rw [if_neg (by simp)] at htable2Desc hend
      rw [htable2Desc] at h
      cases h
      have hlinked := htableAppends next (by rw [hnext, hend, Nat.add_zero])
      have hfull := hsectors.trans hlinked
      rw [List.append_nil] at hfull
      exact hfull

theorem length_drop_take {chunks : List ChunkDescriptor} (start : Nat) {stop : Nat}
    (hstop : stop ≤ chunks.length) : ((chunks.take stop).drop start).length = stop - start := by
  rw [List.length_drop, List.length_take, Nat.min_eq_left hstop]

/-- All groups are written one behind the other, and their chunks are all the chunks. -/
theorem writeTableGroups_appends {spool : Bytes} {chunks : List ChunkDescriptor}
    {groups : List Ewf1TableGroup} {layouts : List Ewf1TableGroupLayout}
    {footerBytes after start : Nat} {hasFooter writesTable2 : Bool} {out out' : SegmentOutput Bytes}
    (hcuts : Cuts chunks ewf1TableGroupMaxPayload start groups)
    (hlayouts : layoutTableGroups footerBytes writesTable2 groups out.bytes.length = .ok layouts)
    (hfooter : footerBytes = if hasFooter then 4 else 0)
    (htable2 : writesTable2 = true → hasFooter = true)
    (hafter : after = (layouts.getLast?.map (·.endOffset)).getD out.bytes.length)
    (h : writeTableGroups spool chunks footerBytes after layouts out = .ok out') :
    ∃ written : List TableGroup, written.flatMap (·.chunks) = chunks.drop start ∧
      ValidFrom spool hasFooter writesTable2 out.bytes.length written ∧
      after = out.bytes.length + chainSize (written.flatMap (·.sections writesTable2)) ∧
      Appends out out' (written.flatMap (·.sections writesTable2))
        (groupPlacements writesTable2 out.bytes.length written) := by
  induction groups generalizing layouts start out with
  | nil =>
    cases hlayouts
    cases h
    have hstart : start = chunks.length := hcuts
    refine ⟨[], ?_, trivial, hafter, .refl _⟩
    simp [hstart]
  | cons group groups ih =>
    obtain ⟨layout, hlayout, hlayouts⟩ := bind_eq_ok.mp hlayouts
    obtain ⟨others, hothers, hlayouts⟩ := bind_eq_ok.mp hlayouts
    cases hlayouts
    obtain ⟨hfirst, hge, hle, hpayload, hbounded, hrest⟩ := hcuts
    obtain ⟨hlayoutFirst, hlayoutEnd, -⟩ := layout_eq hlayout
    obtain ⟨middle, hgroup, h⟩ := bind_eq_ok.mp h
    have hpart : groupChunks chunks layout = (chunks.take group.endChunk).drop start := by
      rw [groupChunks, hlayoutFirst, hlayoutEnd, hfirst]
    have hpartLength := length_drop_take start hle
    have hnext : (others.head?.map (·.sectorsDescOffset)).getD after = layout.endOffset := by
      cases groups with
      | nil =>
        cases hothers
        simpa using hafter
      | cons following groups =>
        obtain ⟨second, hsecond, hothers⟩ := bind_eq_ok.mp hothers
        obtain ⟨_, _, hothers⟩ := bind_eq_ok.mp hothers
        cases hothers
        obtain ⟨-, -, -, hsectors, -⟩ := layout_eq hsecond
        simpa using hsectors
    obtain ⟨first, hchunks, hvalid, hend, happends⟩ := writeTableGroup_appends hlayout hfooter htable2
      (by rw [hpart, hpartLength, hfirst]) (by rw [hpart, hpayload])
      (by rw [hpart, hpartLength, ← hpayload]; exact hbounded) hnext hgroup
    have hmiddle := happends.length
    rw [← hend] at hmiddle
    have hafter' : after = (others.getLast?.map (·.endOffset)).getD middle.bytes.length := by
      rw [hafter, hmiddle, List.getLast?_cons]
      cases others.getLast? <;> rfl
    rw [← hmiddle] at hothers
    obtain ⟨written, hwritten, hvalidFrom, hafterEq, hothersAppend⟩ := ih hrest hothers hafter' h
    refine ⟨first :: written, ?_, ⟨hvalid, ?_⟩, ?_, ?_⟩
    · rw [List.flatMap_cons, hwritten, hchunks, hpart]
      have hsplit := List.take_append_drop group.endChunk chunks
      conv_rhs => rw [← hsplit, List.drop_append_of_le_length (by rw [List.length_take]; omega)]
    · rw [← hend, ← hmiddle]
      exact hvalidFrom
    · rw [hafterEq, hmiddle, hend, List.flatMap_cons, chainSize_append, Nat.add_assoc]
    · have hfull := happends.trans hothersAppend
      rw [hmiddle, hend, hchunks] at hfull
      rw [List.flatMap_cons, groupPlacements, hchunks]
      exact hfull

/-! ## The segment -/

/-- The sections of the metadata. -/
def SectionName.isMetadata (name : SectionName) : Bool :=
  name != .sectors && name != .table && name != .table2

/-- The shape of a written segment: metadata sections, table groups, metadata sections and the
terminal section, all linked. -/
structure SegmentShape (spool : Bytes) (out : SegmentOutput Bytes) (chunks : List ChunkDescriptor)
    (terminal : TerminalSection) (hasFooter writesTable2 : Bool) (fileHeader : Bytes)
    (before : List ChainSection) (groups : List TableGroup) (after : List ChainSection) : Prop where
  header : fileHeader.length = fileHeaderSize
  metadata : ∀ entry ∈ before ++ after, entry.name.isMetadata
  chunks : groups.flatMap (·.chunks) = chunks
  valid : ValidFrom spool hasFooter writesTable2 (fileHeaderSize + chainSize before) groups
  bytes : out.bytes = fileHeader ++
    chainBytes fileHeaderSize (before ++ groups.flatMap (·.sections writesTable2) ++ after) ++
    sectionDesc terminal.ewf1Type (fileHeaderSize +
      chainSize (before ++ groups.flatMap (·.sections writesTable2) ++ after)) sectionDescriptorSize
  descriptors : out.descriptors =
    chainDescriptors fileHeaderSize
      (before ++ groups.flatMap (·.sections writesTable2) ++ after) ++
    [(terminal.ewf1Type, fileHeaderSize +
      chainSize (before ++ groups.flatMap (·.sections writesTable2) ++ after))]
  placements : out.placements =
    groupPlacements writesTable2 (fileHeaderSize + chainSize before) groups

theorem optionalSection_metadata {name : SectionName} {payload : Option Bytes}
    (hname : name.isMetadata) : ∀ entry ∈ optionalSection name payload, entry.name.isMetadata := by
  intro entry hentry
  obtain ⟨_, _, rfl⟩ := List.mem_map.mp hentry
  exact hname

/-- An optional section at `offset`, linked to what starts at `next`. -/
theorem writeOptionalSection_step (name : SectionName) {sectionType : Bytes} {offset next : Nat}
    {payload : Option Bytes} {out : SegmentOutput Bytes} (htype : sectionType = name.type)
    (hlength : out.bytes.length = offset) (hnext : next = offset + optionalSize payload) :
    Appends out (writeOptionalSection sectionType next payload out) (optionalSection name payload)
        [] ∧
      (writeOptionalSection sectionType next payload out).bytes.length = next := by
  subst htype
  have happends : Appends out (writeOptionalSection name.type next payload out)
      (optionalSection name payload) [] :=
    writeOptionalSection_appends name (by rw [hnext, hlength, chainSize_optionalSection])
  refine ⟨happends, ?_⟩
  rw [happends.length, hlength, chainSize_optionalSection, hnext]

/-! ### The parts of a segment -/

section Parts

variable {out₀ out out' : SegmentOutput Bytes} {format : WriteFormat} {volume : Bytes}
  {header header2 xheader session ltree error2 digest xhash : Option Bytes}
  {header2Desc xheaderDesc volumeDesc sessionDesc sectorsDesc : Nat}
  {ltreeDesc error2Desc digestDesc xhashDesc doneDesc : Nat}

/-- The sections before the tables, each linked to the one behind it. -/
theorem sectionsBefore_appends (hlength : out₀.bytes.length = fileHeaderSize)
    (hheader2 : header2Desc = fileHeaderSize + optionalSize header)
    (hxheader : xheaderDesc = header2Desc + optionalSize header2)
    (hvolume : volumeDesc = xheaderDesc + optionalSize xheader)
    (hvolumeLength : volume.length = volumeDataSizeOf format)
    (hsession : volumeDesc + sectionDescriptorSize + volumeDataSizeOf format = sessionDesc)
    (hsectors : sectorsDesc = sessionDesc + optionalSize session)
    (hout : writeOptionalSection (ascii "session") sectorsDesc session
      (((writeOptionalSection (ascii "xheader") volumeDesc xheader
        (writeOptionalSection (ascii "header2") xheaderDesc header2
          (writeOptionalSection (ascii "header") header2Desc header out₀))).writeDescriptor
            (ascii "volume") (sectionDesc (ascii "volume") sessionDesc
              (sectionDescriptorSize + volumeDataSizeOf format))).writeAll volume) = out) :
    Appends out₀ out (optionalSection .header header ++ optionalSection .header2 header2 ++
        optionalSection .xheader xheader ++ [⟨.volume, volume⟩] ++
        optionalSection .session session) [] ∧
      out.bytes.length = sectorsDesc := by
  obtain ⟨hheaderOut, hlength1⟩ := writeOptionalSection_step .header
    (show ascii "header" = _ from rfl) hlength hheader2
  generalize writeOptionalSection (ascii "header") header2Desc header out₀ = out₁ at *
  obtain ⟨hheader2Out, hlength2⟩ := writeOptionalSection_step .header2
    (show ascii "header2" = _ from rfl) hlength1 hxheader
  generalize writeOptionalSection (ascii "header2") xheaderDesc header2 out₁ = out₂ at *
  obtain ⟨hxheaderOut, hlength3⟩ := writeOptionalSection_step .xheader
    (show ascii "xheader" = _ from rfl) hlength2 hvolume
  generalize writeOptionalSection (ascii "xheader") volumeDesc xheader out₂ = out₃ at *
  have hvolumeOut : Appends out₃ ((out₃.writeDescriptor (ascii "volume") (sectionDesc
      (ascii "volume") sessionDesc (sectionDescriptorSize + volumeDataSizeOf format))).writeAll
      volume) [⟨.volume, volume⟩] [] := by
    refine writeDescriptor_writeAll_appends .volume (by rw [hvolumeLength]) ?_
    rw [hlength3, ← hsession, Nat.add_assoc]
  have hlength4 := hvolumeOut.length
  generalize (out₃.writeDescriptor (ascii "volume") (sectionDesc (ascii "volume") sessionDesc
    (sectionDescriptorSize + volumeDataSizeOf format))).writeAll volume = out₄ at *
  rw [hlength3, chainSize_cons, chainSize_nil, Nat.add_zero, ChainSection.size, hvolumeLength,
    ← Nat.add_assoc, hsession] at hlength4
  obtain ⟨hsessionOut, hlength5⟩ := writeOptionalSection_step .session
    (show ascii "session" = _ from rfl) hlength4 hsectors
  rw [hout] at hsessionOut hlength5
  exact ⟨(((hheaderOut.trans hheader2Out).trans hxheaderOut).trans hvolumeOut).trans hsessionOut,
    hlength5⟩

/-- The sections behind the tables. -/
theorem sectionsAfter_appends (hlength : out.bytes.length = ltreeDesc)
    (herror2 : error2Desc = ltreeDesc + optionalSize ltree)
    (hdigest : digestDesc = error2Desc + optionalSize error2)
    (hxhash : xhashDesc = digestDesc + optionalSize digest)
    (hdone : doneDesc = xhashDesc + optionalSize xhash)
    (hout : writeOptionalSection (ascii "xhash") doneDesc xhash
      (writeOptionalSection (ascii "digest") xhashDesc digest
        (writeOptionalSection (ascii "error2") digestDesc error2
          (writeOptionalSection (ascii "ltree") error2Desc ltree out))) = out') :
    Appends out out' (optionalSection .ltree ltree ++ optionalSection .error2 error2 ++
        optionalSection .digest digest ++ optionalSection .xhash xhash) [] ∧
      out'.bytes.length = doneDesc := by
  obtain ⟨hltreeOut, hlength1⟩ := writeOptionalSection_step .ltree
    (show ascii "ltree" = _ from rfl) hlength herror2
  generalize writeOptionalSection (ascii "ltree") error2Desc ltree out = out₁ at *
  obtain ⟨herror2Out, hlength2⟩ := writeOptionalSection_step .error2
    (show ascii "error2" = _ from rfl) hlength1 hdigest
  generalize writeOptionalSection (ascii "error2") digestDesc error2 out₁ = out₂ at *
  obtain ⟨hdigestOut, hlength3⟩ := writeOptionalSection_step .digest
    (show ascii "digest" = _ from rfl) hlength2 hxhash
  generalize writeOptionalSection (ascii "digest") xhashDesc digest out₂ = out₃ at *
  obtain ⟨hxhashOut, hlength4⟩ := writeOptionalSection_step .xhash
    (show ascii "xhash" = _ from rfl) hlength3 hdone
  rw [hout] at hxhashOut hlength4
  exact ⟨((hltreeOut.trans herror2Out).trans hdigestOut).trans hxhashOut, hlength4⟩

/-- Neither part has a table section. -/
theorem isMetadata_parts : ∀ entry ∈ (optionalSection .header header ++
      optionalSection .header2 header2 ++ optionalSection .xheader xheader ++ [⟨.volume, volume⟩] ++
      optionalSection .session session) ++ (optionalSection .ltree ltree ++
      optionalSection .error2 error2 ++ optionalSection .digest digest ++
      optionalSection .xhash xhash), entry.name.isMetadata := by
  intro entry hentry
  simp only [List.mem_append, List.mem_singleton] at hentry
  rcases hentry with ((((hentry | hentry) | hentry) | rfl) | hentry) |
    (((hentry | hentry) | hentry) | hentry)
  · exact optionalSection_metadata rfl entry hentry
  · exact optionalSection_metadata rfl entry hentry
  · exact optionalSection_metadata rfl entry hentry
  · rfl
  · exact optionalSection_metadata rfl entry hentry
  · exact optionalSection_metadata rfl entry hentry
  · exact optionalSection_metadata rfl entry hentry
  · exact optionalSection_metadata rfl entry hentry
  · exact optionalSection_metadata rfl entry hentry

/-- A file header and three parts behind it have the shape of a segment. -/
theorem SegmentShape.of_appends {spool fileHeader : Bytes} {chunks : List ChunkDescriptor}
    {terminal : TerminalSection} {hasFooter writesTable2 : Bool} {before after : List ChainSection}
    {groups : List TableGroup} {grouped : SegmentOutput Bytes}
    (hstart : SegmentOutput.empty.writeAll fileHeader = out₀)
    (hlength : out₀.bytes.length = fileHeaderSize)
    (hmetadata : ∀ entry ∈ before ++ after, entry.name.isMetadata)
    (hchunks : groups.flatMap (·.chunks) = chunks)
    (hvalid : ValidFrom spool hasFooter writesTable2 out.bytes.length groups)
    (hbefore : Appends out₀ out before [])
    (hgroups : Appends out grouped (groups.flatMap (·.sections writesTable2))
      (groupPlacements writesTable2 out.bytes.length groups))
    (hafter : Appends grouped out' after []) :
    SegmentShape spool (out'.writeDescriptor terminal.ewf1Type (sectionDesc terminal.ewf1Type
      out'.bytes.length sectionDescriptorSize)) chunks terminal hasFooter writesTable2 fileHeader
      before groups after := by
  have hheader : out₀.bytes = fileHeader := by
    rw [← hstart]
    rfl
  have hdescriptors : out₀.descriptors = [] := by
    rw [← hstart]
    rfl
  have hplacements : out₀.placements = [] := by
    rw [← hstart]
    rfl
  have hall := (hbefore.trans hgroups).trans hafter
  have hallLength := hall.length
  have hbeforeLength := hbefore.length
  rw [hlength] at hallLength hbeforeLength
  refine ⟨hheader ▸ hlength, hmetadata, hchunks, ?_, ?_, ?_, ?_⟩
  · rw [← hbeforeLength]
    exact hvalid
  · rw [SegmentOutput.bytes_writeDescriptor, hallLength, hall.bytes, hlength, hheader]
  · rw [SegmentOutput.descriptors_writeDescriptor, hall.descriptors, hdescriptors, hlength,
      hallLength, List.nil_append]
  · rw [SegmentOutput.placements_writeDescriptor, hall.placements, hplacements, ← hbeforeLength]
    simp

end Parts

/-- The payloads of a written segment in their order, and its shape. -/
theorem writeEwf1Segment_sections {encoders : Ewf1PayloadEncoders} {spool : Bytes}
    {chunks : List ChunkDescriptor} {options : WriteOptions} {context : Ewf1SegmentWriteContext}
    {out : SegmentOutput Bytes} (h : writeEwf1Segment encoders spool chunks options context = .ok out) :
    ∃ header header2 xheader session ltree error2 digest xhash volume groups,
      (if context.sections.header then encoders.header options else .ok none) = .ok header ∧
      (if context.sections.header then encoders.header2 options else .ok none) = .ok header2 ∧
      (if context.sections.header then encoders.xheader options else .ok none) = .ok xheader ∧
      (if context.sections.sessions then encoders.session options else .ok none) = .ok session ∧
      (if context.sections.digest && options.format = .ewf1Logical then encoders.ltree options
        else .ok none) = .ok ltree ∧
      (if context.sections.errors then encoders.error2 options else .ok none) = .ok error2 ∧
      (if context.sections.digest then encoders.digest options else .ok none) = .ok digest ∧
      (if context.sections.digest then encoders.xhash options else .ok none) = .ok xhash ∧
      volumeData options context.chunkCount context.sectorCount = .ok volume ∧
      SegmentShape spool out chunks context.terminalSection (options.format ≠ .ewf1Smart)
        (options.format ≠ .ewf1Smart)
        (ewf1Signature options.format ++ [1] ++ toLE 2 context.segmentNumber.toNat ++ toLE 2 0)
        (optionalSection .header header ++ optionalSection .header2 header2 ++
          optionalSection .xheader xheader ++ [⟨.volume, volume⟩] ++ optionalSection .session session)
        groups
        (optionalSection .ltree ltree ++ optionalSection .error2 error2 ++
          optionalSection .digest digest ++ optionalSection .xhash xhash) := by
  simp only [writeEwf1Segment, bind_eq_ok, rejectIf_eq_ok, pure_eq_ok, Except.ok.injEq] at h
  obtain ⟨_, hformat, _, hcount, header, hheaderData, header2, hheader2Data, xheader, hxheaderData,
    digest, hdigestData, xhash, hxhashData, error2, herror2Data, session, hsessionData, ltree,
    hltreeData, header2Desc, hheader2, xheaderDesc, hxheader, volumeDesc, hvolume,
    sectorsDesc, hsectors, layouts, hlayouts, error2Desc, herror2, digestDesc, hdigest,
    xhashDesc, hxhash, doneDesc, hdone, volume, hvolumeData, grouped, hgroups, rfl⟩ := h
  replace hheader2 := descOffsetBehind_eq hheader2
  replace hxheader := descOffsetBehind_eq hxheader
  replace hvolume := descOffsetBehind_eq hvolume
  replace hsectors := descOffsetBehind_eq hsectors
  replace herror2 := descOffsetBehind_eq herror2
  replace hdigest := descOffsetBehind_eq hdigest
  replace hxhash := descOffsetBehind_eq hxhash
  replace hdone := descOffsetBehind_eq hdone
  generalize hltreeDesc : (layouts.getLast?.map (·.endOffset)).getD sectorsDesc = ltreeDesc at *
  generalize hsessionDesc : volumeDesc + sectionDescriptorSize + volumeDataSizeOf options.format =
    sessionDesc at *
  -- Every next-offset is the offset of whatever section follows.
  rw [firstPresent_eq (.cons hxheader (.cons hvolume .nil)), firstPresent_eq (.cons hvolume .nil),
    firstPresent_eq (.cons herror2 (.cons hdigest (.cons hxhash (.cons hdone .nil))))] at hgroups
  rw [firstPresent_eq (.cons hdigest (.cons hxhash (.cons hdone .nil))),
    firstPresent_eq (.cons hxhash (.cons hdone .nil)), firstPresent_eq (.cons hdone .nil)]
  have hafterVolume : (if session.isSome = true then sessionDesc else sectorsDesc) = sessionDesc := by
    cases session with
    | none => simpa [optionalSize] using hsectors
    | some _ => rfl
  rw [hafterVolume] at hgroups
  generalize hstart : SegmentOutput.empty.writeAll (ewf1Signature options.format ++ [1] ++
    toLE 2 context.segmentNumber.toNat ++ toLE 2 0) = out₀ at hgroups
  have hlength : out₀.bytes.length = fileHeaderSize := by
    have hsignature : (ewf1Signature options.format).length = 8 := by
      unfold ewf1Signature
      split <;> rfl
    rw [← hstart]
    simp [SegmentOutput.empty, hsignature, fileHeaderSize]
  generalize hfront : writeOptionalSection (ascii "session") sectorsDesc session _ = out at hgroups
  obtain ⟨hbefore, hsectorsLength⟩ := sectionsBefore_appends hlength hheader2 hxheader hvolume
    (length_volumeData hvolumeData) hsessionDesc hsectors hfront
  -- The table groups.
  obtain ⟨groups, hcuts, hlayouts⟩ := bind_eq_ok.mp hlayouts
  have hfooter : (if options.format = .ewf1Smart then 0 else 4) =
      if decide (options.format ≠ .ewf1Smart) = true then 4 else 0 := by
    by_cases hsmart : options.format = .ewf1Smart
    · simp [hsmart]
    · simp [hsmart]
  have htable2 : (decide (options.format = .ewf1Physical) || decide (options.format = .ewf1Logical)) =
      decide (options.format ≠ .ewf1Smart) := by
    cases hcase : options.format <;> simp_all [isEwf2Format]
  rw [htable2, ← hsectorsLength] at hlayouts
  rw [← hsectorsLength] at hltreeDesc
  obtain ⟨written, hchunks, hvalid, hltree, hgroupsOut⟩ := writeTableGroups_appends
    (ewf1TableGroups_cuts hcuts) hlayouts hfooter (fun hflag => hflag) hltreeDesc.symm hgroups
  have hgroupedLength := hgroupsOut.length
  rw [← hltree] at hgroupedLength
  generalize hback : writeOptionalSection (ascii "xhash") doneDesc xhash _ = out'
  obtain ⟨hafter, hdoneLength⟩ := sectionsAfter_appends hgroupedLength herror2 hdigest hxhash hdone
    hback
  refine ⟨header, header2, xheader, session, ltree, error2, digest, xhash, volume, written,
    hheaderData, hheader2Data, hxheaderData, hsessionData, hltreeData, herror2Data, hdigestData,
    hxhashData, hvolumeData, ?_⟩
  rw [← hdoneLength]
  exact SegmentShape.of_appends hstart hlength isMetadata_parts (by simpa using hchunks) hvalid
    hbefore hgroupsOut hafter

theorem writeEwf1Segment_shape {encoders : Ewf1PayloadEncoders} {spool : Bytes}
    {chunks : List ChunkDescriptor} {options : WriteOptions} {context : Ewf1SegmentWriteContext}
    {out : SegmentOutput Bytes} (h : writeEwf1Segment encoders spool chunks options context = .ok out) :
    ∃ fileHeader before groups after, SegmentShape spool out chunks context.terminalSection
      (options.format ≠ .ewf1Smart) (options.format ≠ .ewf1Smart) fileHeader before groups after := by
  obtain ⟨_, _, _, _, _, _, _, _, _, groups, _, _, _, _, _, _, _, _, _, hshape⟩ :=
    writeEwf1Segment_sections h
  exact ⟨_, _, groups, _, hshape⟩

end EwfImage.Ewf1

import EwfImage.Acquisition.Turns

/-!
# Sources with a content

A source with a content delivers the bytes at its position, in reads of any length.
Whether it may also fail is left open. What the loop accepts from such a source is the
content behind the start, unless a sector was substituted.

The main results are `keeps_unsubstituted`, which says what a call without substitution has
accepted, and `Follows.unique`. A position of the source is a function of the world, so a seek
is a change of it; what the source does behind its end is its own affair.
-/

namespace EwfImage.Acquisition

open Fallible Word Pieces Triples Slice AcquisitionWriter

variable {σ : Type} {env : Environment σ} {faulty : Prop} {content : Bytes} {position : σ → Nat}

/-- The source reads `content` at its position; it and the callback fail only by a fault. -/
structure Source (env : Environment σ) (faulty : Prop) (content : Bytes)
    (position : σ → Nat) : Prop where
  callback : ∀ progress world, ((env.callback progress world).1 = true → faulty) ∧
    position (env.callback progress world).2 = position world
  seek : ∀ offset world, offset ≤ content.length → match (env.seek offset world).1 with
    | .ok positioned => (positioned ≠ offset → faulty) ∧
        (positioned = offset → position (env.seek offset world).2 = offset)
    | .error _ => faulty
  read : ∀ wanted world, 0 < wanted → position world + wanted ≤ content.length →
    match checkRead wanted (env.read wanted world).1 with
    | .ok bytes => bytes = slice content (position world) bytes.length ∧
        position (env.read wanted world).2 = position world + bytes.length
    | .error _ => faulty

/-- Bytes of the content. -/
def Window (content : Bytes) (offset : Nat) (bytes : Bytes) : Prop :=
  bytes = slice content offset bytes.length

theorem Window.append {offset : Nat} {left right : Bytes} (hleft : Window content offset left)
    (hright : Window content (offset + left.length) right) :
    Window content offset (left ++ right) := by
  unfold Window at *
  rw [List.length_append, ← slice_append_slice, ← hleft, ← hright]

theorem Window.left {offset : Nat} {left right : Bytes} (h : Window content offset (left ++ right)) :
    Window content offset left := by
  unfold Window at *
  rw [List.length_append, ← slice_append_slice] at h
  have hlength : (left ++ right).length ≤ content.length - offset := by
    have hall := congrArg List.length h
    rw [slice_append_slice, length_slice, List.length_append] at hall
    rw [List.length_append]
    omega
  rw [List.length_append] at hlength
  exact (List.append_inj h (by rw [length_slice]; omega)).1

section Reading

variable {w : AcquisitionWriter} {attempts : List (Nat × Bytes)}

/-- The source stands at `offset`. -/
def AtPosition (position : σ → Nat) (w : AcquisitionWriter) (attempts : List (Nat × Bytes))
    (offset : Nat) (s : State σ) : Prop :=
  At w attempts s ∧ position s.world = offset

theorem triple_notify_position (hsource : Source env faulty content position) (offset : Nat) :
    Triple (AtPosition position w attempts offset) (notify env)
      (fun _ => AtPosition position w attempts offset)
      fun _ s => faulty ∧ At w attempts s := by
  refine Triple.bind_get fun s ⟨hat, hposition⟩ => triple_ask_state ?_
  rintro s rfl
  have hcallback := hsource.callback s.progress s.world
  cases hbreak : (env.callback s.progress s.world).1 with
  | true => exact triple_throw fun s' hs' => ⟨hcallback.1 hbreak, hs' ▸ hat⟩
  | false => exact triple_pure fun s' hs' => hs' ▸ ⟨hat, hcallback.2.trans hposition⟩

theorem triple_readLoop_source (hsource : Source env faulty content position) {size fuel offset : Nat}
    {filled : Bytes} (hle : filled.length ≤ size) (hfuel : size ≤ filled.length + fuel)
    (hsize : offset + size ≤ content.length) (hwindow : Window content offset filled) :
    Triple (AtPosition position w attempts (offset + filled.length)) (readLoop env size fuel filled)
      (fun result s => match result with
        | .ok bytes => (bytes.length = size ∧ Window content offset bytes) ∧ At w attempts s
        | .error _ => faulty ∧ At w attempts s)
      fun _ s => faulty ∧ At w attempts s := by
  induction fuel generalizing filled with
  | zero => exact triple_pure fun s hs => ⟨⟨by omega, hwindow⟩, hs.1⟩
  | succ fuel ih =>
    rw [readLoop]
    by_cases hlt : filled.length < size
    · rw [if_pos hlt]
      refine triple_ask_state fun s hs => ?_
      obtain ⟨hat, hposition⟩ := hs
      have hread := hsource.read (size - filled.length) s.world (by omega) (by omega)
      cases hresult : checkRead (size - filled.length)
          (env.read (size - filled.length) s.world).1 with
      | error kind =>
        rw [hresult] at hread
        refine Triple.of_pre (P := At w attempts) ?_ fun _ hs' => hs' ▸ hat
        refine triple_modifyProgress_bind (Triple.bind (triple_notify_safe.weaken (fun _ hs => hs)
          (fun _ _ hs => hs) fun _ _ hs => ⟨hread, hs⟩) fun _ => ?_)
        exact triple_pure fun s hs => ⟨hread, hs⟩
      | ok bytes =>
        rw [hresult, hposition] at hread
        obtain ⟨hbytes, hmoved⟩ := hread
        obtain ⟨hne, hbound⟩ := length_of_checkRead hresult
        have hpos : 0 < bytes.length := List.length_pos_iff.mpr hne
        refine Triple.of_pre
          (P := AtPosition position w attempts (offset + filled.length + bytes.length)) ?_
          fun _ hs' => hs' ▸ ⟨hat, hmoved⟩
        refine Triple.bind (triple_notify_position hsource _) fun _ => ?_
        have hmore := @ih (filled ++ bytes) (by rw [List.length_append]; omega)
          (by rw [List.length_append]; omega) (hwindow.append hbytes)
        rw [List.length_append, ← Nat.add_assoc] at hmore
        exact hmore
    · rw [if_neg hlt]
      exact triple_pure fun s hs => ⟨⟨by omega, hwindow⟩, hs.1⟩

/-- Attempts at a source with a content deliver its bytes. -/
theorem reads_source (hsource : Source env faulty content position) :
    Reads env faulty (Window content) content.length := by
  intro w attempts size hsize
  refine triple_writer_bind (triple_modifyProgress_bind (Triple.bind (Q := fun _ => At w attempts)
    ?_ fun _ => ?_))
  · intro s hs
    exact (triple_notify_position hsource (position s.world)).weaken (fun _ hs => hs)
      (fun _ _ hs => hs.1) (fun _ _ hs => hs) s ⟨hs, rfl⟩
  · refine triple_ask_state fun s hs => ?_
    have hseek := hsource.seek w.offset s.world (by omega)
    cases hresult : (env.seek w.offset s.world).1 with
    | error kind =>
      rw [hresult] at hseek
      exact triple_throw fun _ hs' => ⟨hseek, hs' ▸ hs⟩
    | ok positioned =>
      rw [hresult] at hseek
      dsimp only
      by_cases hposition : positioned ≠ w.offset
      · rw [if_pos hposition]
        exact triple_throw fun _ hs' => ⟨hseek.1 hposition, hs' ▸ hs⟩
      · rw [if_neg hposition]
        have hstands := hseek.2 (Decidable.of_not_not hposition)
        refine Triple.of_pre (P := AtPosition position w attempts w.offset) ?_
          fun _ hs' => hs' ▸ ⟨hs, hstands⟩
        refine Triple.bind (Q := fun _ => AtPosition position w attempts w.offset)
          (fun _ hs => hs) fun _ => ?_
        refine Triple.bind (triple_readLoop_source hsource (Nat.zero_le _)
          (by rw [List.length_nil, Nat.zero_add]) hsize ?_)
          fun result => ?_
        · simp [Window]
        · cases result with
          | error kind => exact triple_pure fun _ hs => hs
          | ok bytes =>
            intro s hs
            exact ⟨hs.1, hs.2.1, by rw [← hs.2.2]⟩

end Reading

/-! ## Accepted content -/

/-- The content behind the start has been accepted, and nothing else has changed. -/
structure Follows (content : Bytes) (start c : Core) : Prop where
  le : start.offset ≤ c.offset
  core : c = start.accept (slice content start.offset (c.offset - start.offset))

variable {start c : Core}

theorem Follows.refl (content : Bytes) (start : Core) : Follows content start start := by
  refine ⟨Nat.le_refl _, ?_⟩
  rw [Nat.sub_self, slice_zero, accept_nil]

theorem Follows.accept {bytes : Bytes} (h : Follows content start c)
    (hwindow : Window content c.offset bytes) : Follows content start (c.accept bytes) := by
  have hle := h.le
  have hoffset : start.offset + (c.offset - start.offset) = c.offset := by omega
  have hbytes : bytes = slice content (start.offset + (c.offset - start.offset)) bytes.length := by
    rw [hoffset]
    exact hwindow
  have hcore := h.core
  refine ⟨hle.trans (Nat.le_add_right _ _), ?_⟩
  change c.accept bytes =
    start.accept (slice content start.offset (c.offset + bytes.length - start.offset))
  calc c.accept bytes
      = (start.accept (slice content start.offset (c.offset - start.offset))).accept bytes := by
        rw [← hcore]
    _ = start.accept (slice content start.offset (c.offset - start.offset) ++ bytes) :=
        accept_append _ _ _
    _ = start.accept (slice content start.offset (c.offset - start.offset + bytes.length)) := by
        rw [← slice_append_slice, ← hbytes]
    _ = _ := by rw [Nat.sub_add_comm hle]

/-- Cores that follow the same content to the same offset are equal. -/
theorem Follows.unique {c' : Core} (h : Follows content start c) (h' : Follows content start c')
    (hoffset : c'.offset = c.offset) : c' = c := by
  rw [h.core, h'.core, hoffset]

/-- Without faults nothing is substituted. -/
theorem keeps_content (content : Bytes) (start : Core) :
    Keeps False (Window content) fun c _ => Follows content start c :=
  ⟨fun h _ => h, fun _ _ h hgood _ _ _ => h.accept hgood.left, fun h => h.elim⟩

/-- With faults the media is the content as long as no sector is substituted. -/
theorem keeps_unsubstituted (content : Bytes) (start : Core) :
    Keeps True (Window content) fun c _ =>
      start.substitutedSectors ≤ c.substitutedSectors ∧
        (c.substitutedSectors = start.substitutedSectors → Follows content start c) := by
  refine ⟨fun h _ => h, fun _ _ h hgood _ _ _ => ⟨h.1, fun hsame => (h.2 hsame).accept hgood.left⟩, ?_⟩
  intro w w' _ _ _ _ _ h hrecord _
  have hsame := recordSubstitution_eq hrecord
  have hle : start.substitutedSectors ≤ w.substitutedSectors := h.1
  have hcount : (w'.core.accept (List.replicate w.bytesPerSector 0)).substitutedSectors =
      w.substitutedSectors + 1 := by
    rw [hsame]
    rfl
  rw [hcount]
  exact ⟨by omega, fun hequal => by omega⟩

end EwfImage.Acquisition

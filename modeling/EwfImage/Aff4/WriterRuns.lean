import EwfImage.Aff4.CollectWalk
import EwfImage.Aff4.Open

/-!
# Runs of a writer

Whatever operations a writer goes through, and wherever the archive, an input or a callback
fails: what it publishes are the two members that it starts with, the whole members of its
additions in the order of their acquisition, and the metadata with its digest.

The main results are `published_whole` and `failed_operation_leaves`, over all runs from a new
writer, and `collected_container_fits` for the budget of collections. `poisoned_session` says
that behind a poisoned operation nothing is published at all. The environment is arbitrary.
-/

namespace EwfImage.Aff4.Writing

open Fallible Triples Word

/-! ## The end of a container -/

section Finishing

variable {σ α β : Type} {libraries : WriterLibraries} {env : Environment σ} {w : Writer}
  {p : Option (List Member)} {E : Writer → Option (List Member) → Prop}
  {Q : α → Writer → Option (List Member) → Prop} {R : β → Writer → Option (List Member) → Prop}

/-- Steps of a writer with a destination that holds `p`. -/
def Finishes (E : Writer → Option (List Member) → Prop) (w : Writer) (p : Option (List Member))
    (x : Finish σ α) (Q : α → Writer → Option (List Member) → Prop) : Prop :=
  Triple (fun s => s.state.writer = w ∧ s.published = p) x
    (fun a s => Q a s.state.writer s.published) fun _ s => E s.state.writer s.published

theorem Finishes.bind {x : Finish σ α} {f : α → Finish σ β} (hx : Finishes E w p x Q)
    (hf : ∀ a w' p', Q a w' p' → Finishes E w' p' (f a) R) : Finishes E w p (x >>= f) R :=
  Triple.bind hx fun a s hs => hf a s.state.writer s.published hs s ⟨rfl, rfl⟩

theorem Finishes.imp {x : Finish σ α} {Q' : α → Writer → Option (List Member) → Prop}
    (hx : Finishes E w p x Q) (himp : ∀ a w' p', Q a w' p' → Q' a w' p') : Finishes E w p x Q' :=
  Triple.imp hx fun a s hs => himp a s.state.writer s.published hs

theorem finishes_pure {a : α} (h : Q a w p) : Finishes E w p (pure a : Finish σ α) Q :=
  triple_pure fun _ hs => by
    rw [hs.1, hs.2]
    exact h

theorem finishes_throw {e : WriteError} (h : E w p) : Finishes E w p (throw e : Finish σ α) Q :=
  triple_throw fun _ hs => by
    rw [hs.1, hs.2]
    exact h

theorem finishes_onWriter {x : Write σ α} {Q : α → Writer → Prop}
    (h : Steps (fun w' => E w' p) w x Q) :
    Finishes E w p (onWriter x) fun a w' p' => Q a w' ∧ p' = p := by
  intro s hs
  have hrun := h s.state hs.1
  unfold onWriter
  cases hx : x s.state with
  | ok a state =>
    rw [hx] at hrun
    exact ⟨hrun, hs.2⟩
  | error e state =>
    rw [hx] at hrun
    have hE : E state.writer p := hrun
    rw [← hs.2] at hE
    exact hE

/-- The member with the digest of the metadata. -/
def hashesMember (volume digest : String) : Member :=
  ⟨"information.turtle.hashes", utf8Bytes ("@prefix a: <http://aff4.org/Schema#> .\n" ++
    s!"<{volume}/information.turtle> a:hash \"{digest}\"^^a:SHA256 .\n"), false⟩

/-- The members of a finished container. -/
def finishedMembers (libraries : WriterLibraries) (w : Writer) (metadata : Bytes) : List Member :=
  w.members ++ [⟨"information.turtle", metadata, false⟩,
    hashesMember w.volume (hex (libraries.sha256 metadata))]

/-- The destination holds nothing, or the finished container of the writer `w`. -/
def Published (libraries : WriterLibraries) (w w' : Writer) (p : Option (List Member)) : Prop :=
  p = none ∨ ∃ metadata, w.metadata <+: metadata ∧
    metadata.length = w.metadata.length + w.recordsSize libraries ∧
    w'.streams = w.streams ∧ p = some (finishedMembers libraries w metadata)

theorem steps_finishLogicalMetadata {E : Writer → Prop} (hE : ∀ w, E w) :
    Steps E w (finishLogicalMetadata libraries env) fun _ w' => ∃ metadata,
      w.metadata <+: metadata ∧
      metadata.length = w.metadata.length + w.recordsSize libraries ∧
      w' = { w with metadata } := by
  refine Steps.bind steps_changed fun _ v hv => ?_
  refine steps_writer_bind ?_
  have hfolders : (w.folders.toList.flatMap folderRecord).length = foldersSize w.folders :=
    length_flatMap_sum _ _
  have hroots : v.roots = w.roots := by rw [hv]
  have hseparator : v.pathSeparator = w.pathSeparator := by rw [hv]
  have hmetadata : v.metadata.length = w.metadata.length + foldersSize w.folders := by
    rw [hv, List.length_append, hfolders]
  refine steps_ite (fun hc => ?_) fun hc => ?_
  · refine Steps.bind (attempts_identifier.weaken fun _ _ => hE _) fun task u ⟨hu, htask⟩ => ?_
    subst hu
    refine steps_modify ⟨u.metadata ++ rootsRecord libraries task u.pathSeparator u.roots,
      ?_, ?_, ?_⟩
    · rw [hv]
      exact (List.prefix_append _ _).trans (List.prefix_append _ _)
    · rw [List.length_append, length_rootsRecord htask _ hc, hmetadata, hseparator, hroots]
      unfold Writer.recordsSize
      omega
    · rw [hv]
  · refine steps_pure ⟨v.metadata, ?_, ?_, ?_⟩
    · rw [hv]
      exact List.prefix_append _ _
    · rw [hmetadata, Writer.recordsSize, rootsSize, ← hroots, if_pos (not_not.mp hc)]
      rfl
    · rw [hv]

theorem steps_askFailure {E : Writer → Prop} (hE : E w) {operation : σ → Option Error × σ} :
    Steps E w (do ofFailure (← ask operation)) fun _ w' => w' = w := by
  refine Steps.bind (Q := fun _ w' => w' = w) (steps_ask fun _ => rfl) fun failure w' hw' => ?_
  subst hw'
  exact steps_ofFailure hE rfl

theorem finishes_finishChecked {check : List Member → String → Write σ Unit}
    (hcheck : ∀ members digest v, Steps (fun w' => Published libraries w w' none) v
      (check members digest) fun _ w' => w' = v) :
    Finishes (Published libraries w) w none (finishChecked libraries env check)
      fun result w' p => result.streams = w.streams ∧ ∃ metadata,
        w.metadata <+: metadata ∧
        metadata.length = w.metadata.length + w.recordsSize libraries ∧
        result.metadataSha256 = hex (libraries.sha256 metadata) ∧ w'.streams = w.streams ∧
        p = some (finishedMembers libraries w metadata) := by
  have hnone : ∀ w' : Writer, Published libraries w w' none := fun w' => .inl rfl
  refine Finishes.bind (finishes_onWriter (attempts_healthy.weaken fun _ _ => hnone _)) ?_
  rintro _ v p ⟨⟨hv, _⟩, hp⟩
  subst hv hp
  refine Finishes.bind (finishes_onWriter (steps_finishLogicalMetadata hnone)) ?_
  rintro _ w₁ p ⟨⟨metadata, hgrown, hlength, hw₁⟩, hp⟩
  subst hp
  refine Finishes.bind (finishes_onWriter steps_writer) ?_
  rintro a w₂ p ⟨⟨ha, hw₂⟩, hp⟩
  subst ha hw₂ hp
  refine Finishes.bind (finishes_onWriter (steps_writeMember (fun _ _ => hnone _) _ _)) ?_
  rintro _ w₃ p ⟨hw₃, hp⟩
  subst hp
  refine Finishes.bind (finishes_onWriter (steps_writeMember (fun _ _ => hnone _) _ _)) ?_
  rintro _ w₄ p ⟨hw₄, hp⟩
  subst hp
  refine Finishes.bind (finishes_onWriter steps_writer) ?_
  rintro a w₅ p ⟨⟨ha, hw₅⟩, hp⟩
  subst ha hw₅ hp
  have hmembers : w₅.members = finishedMembers libraries v metadata := by
    rw [hw₄, hw₃, hw₁]
    simp only [Writer.withMembers, List.append_assoc]
    rfl
  have hstreams : w₅.streams = v.streams := by rw [hw₄, hw₃, hw₁]; rfl
  refine Finishes.bind (finishes_onWriter (steps_askFailure (hnone _))) ?_
  rintro _ w₆ p ⟨hw₆, hp⟩
  subst hw₆ hp
  refine Finishes.bind (finishes_onWriter (hcheck _ _ _)) ?_
  rintro _ w₇ p ⟨hw₇, hp⟩
  subst hw₇ hp
  refine Finishes.bind (finishes_onWriter (steps_askFailure (hnone _))) ?_
  rintro _ w₈ p ⟨hw₈, hp⟩
  subst hw₈ hp
  refine Finishes.bind (Q := fun _ w' p => w' = w₈ ∧
      p = some (finishedMembers libraries v metadata))
    (triple_modify fun s hs => ⟨hs.1, by rw [hmembers]⟩) ?_
  rintro _ w₉ p ⟨hw₉, hp⟩
  subst hw₉
  have hpublished : Published libraries v w₉ p :=
    .inr ⟨metadata, hgrown, hlength, hstreams, hp⟩
  refine Finishes.bind (finishes_onWriter (Q := fun _ w' => w' = w₉) (steps_ask fun _ => rfl)) ?_
  rintro synced w' p' ⟨hw', hp'⟩
  subst hw' hp'
  cases synced with
  | some reason => exact finishes_throw hpublished
  | none =>
    refine finishes_pure ⟨hstreams, metadata, hgrown, hlength, ?_, hstreams, hp⟩
    rw [hw₁]

theorem steps_verifyStaged {E : Writer → Prop} (hE : E w) (verification : StagedVerification σ)
    (members : List Member) (digest : String) :
    Steps E w (verifyStaged verification members digest) fun _ w' => w' = w := by
  refine Steps.bind (Q := fun _ w' => w' = w) (steps_ask fun _ => rfl) fun stopped w' hw' => ?_
  subst hw'
  refine steps_ite (fun _ => ?_) fun _ => ?_
  · exact steps_throw_bind hE
  refine Steps.bind (Q := fun _ v => v = w') (steps_ask fun _ => rfl) fun answer v hv => ?_
  subst hv
  refine Steps.bind (Q := fun _ v' => v' = v) (steps_ofWriteResult hE fun _ _ => rfl)
    fun allMatch v' hv' => ?_
  subst hv'
  refine steps_ite (fun _ => ?_) fun _ => ?_
  · exact steps_throw_bind hE
  refine Steps.bind (Q := fun _ u => u = v') (steps_ask fun _ => rfl) fun stopped u hu => ?_
  subst hu
  exact steps_ite (fun _ => steps_throw hE) fun _ => steps_pure rfl

end Finishing

/-! ## Operations -/

section Operations

variable {σ : Type} {libraries : WriterLibraries} {env : Environment σ} {w : Writer}

/-- The separators that a writer may have when the operation fails. -/
def Operation.separators (w : Writer) : Operation σ → List Char
  | .addDirectoryTree fs _ _ _ => [w.pathSeparator, fs.mainSeparator]
  | _ => [w.pathSeparator]

/-- What an operation that fails leaves: a poisoned writer, or all of it but for the separator. -/
def Operation.Left (op : Operation σ) (w w' : Writer) : Prop :=
  w'.poisoned = true ∨ ∃ separator ∈ op.separators w, w' = { w with pathSeparator := separator }

theorem steps_validateTree {E : Writer → Prop} (hE : E w) {fs : FileSystem σ}
    {options : CollectionOptions} {root : Bytes} :
    Steps E w (validateTree fs options root) fun _ w' => w' = w := by
  refine Steps.bind (Q := fun _ v => v = w) (steps_ask fun _ => rfl) fun answer v hv => ?_
  subst hv
  refine Steps.bind (steps_ofIo hE) fun path u hu => ?_
  subst hu
  refine Steps.bind (Q := fun _ v => v = u) (steps_ask fun _ => rfl) fun directory v hv => ?_
  subst hv
  refine steps_ite (fun _ => ?_) fun _ => ?_
  · exact steps_throw_bind hE
  refine steps_writer_bind ?_
  refine steps_ite (fun _ => ?_) fun _ => ?_
  · exact steps_throw_bind hE
  refine steps_ite (fun _ => ?_) fun _ => steps_pure rfl
  exact steps_throw_bind hE

theorem steps_addDirectoryTree (hoptions : w.options.Valid) (fs : FileSystem σ)
    (options : CollectionOptions) (limits : CollectionLimits) (root : Bytes) :
    Steps ((Operation.addDirectoryTree fs options limits root).Left w) w
      (addDirectoryTreeWithLimits libraries env fs options limits root)
      fun report w' =>
        Collected libraries limits { w with pathSeparator := fs.mainSeparator } report w' := by
  have hsame : (Operation.addDirectoryTree fs options limits root).Left w w :=
    .inr ⟨w.pathSeparator, List.mem_cons_self, rfl⟩
  have hset : (Operation.addDirectoryTree fs options limits root).Left w
      { w with pathSeparator := fs.mainSeparator } :=
    .inr ⟨fs.mainSeparator, List.mem_cons_of_mem _ List.mem_cons_self, rfl⟩
  have hattempts : ∀ v, v.poisoned = true ∨ v = w →
      (Operation.addDirectoryTree fs options limits root).Left w v := by
    rintro v (hv | rfl)
    · exact .inl hv
    · exact hsame
  refine Steps.bind ((attempts_logicalParent none).weaken hattempts) fun _ v ⟨hv, _⟩ => ?_
  rw [hv]
  refine Steps.bind (Q := fun _ v => v = w) (steps_ask fun _ => rfl) fun answer v hv => ?_
  rw [hv]
  refine Steps.bind (steps_ofIo hsame) fun found v hv => ?_
  rw [hv]
  refine steps_ite (fun _ => ?_) fun _ => ?_
  · exact steps_throw_bind hsame
  refine Steps.bind ((attempts_setPathSeparator _).weaken hattempts) fun _ v hv => ?_
  rw [hv]
  refine Steps.bind (steps_validateTree hset) fun root v hv => ?_
  rw [hv]
  have hvalid : ({ w with pathSeparator := fs.mainSeparator } : Writer).options.Valid := hoptions
  exact Steps.bind (Steps.weaken (writes_collectOrPoison hvalid root) fun _ => .inl)
    fun walk v hv => steps_pure hv

theorem steps_discard {α : Type} {E : Writer → Prop} {x : Write σ α} {Q : α → Writer → Prop}
    {R : Writer → Prop} (hx : Steps E w x Q) (himp : ∀ a w', Q a w' → R w') :
    Steps E w (discard x) fun _ w' => R w' :=
  Steps.bind hx fun a _ hQ => steps_pure (himp a _ hQ)

theorem separator_mem (op : Operation σ) (w : Writer) : w.pathSeparator ∈ op.separators w := by
  cases op <;> exact List.mem_cons_self

/-- An operation that succeeds makes the writer grow. -/
theorem steps_perform (hoptions : w.options.Valid) (op : Operation σ) :
    Steps (op.Left w) w (op.perform libraries env) fun _ w' => Grown libraries w w' := by
  have hattempts : ∀ v, v.poisoned = true ∨ v = w → op.Left w v := by
    rintro v (hv | rfl)
    · exact .inl hv
    · exact .inr ⟨_, separator_mem op v, rfl⟩
  cases op with
  | addImage source size =>
    exact steps_discard ((attempts_addImage hoptions).weaken hattempts) fun _ _ h => h.grown
  | addImageWithSectorSize source size sectorSize =>
    refine steps_discard ((attempts_addImageWithSectorSize hoptions sectorSize).weaken hattempts)
      fun _ _ ⟨v, text, hadded, hv⟩ => ?_
    rw [hv]
    exact hadded.grown.trans (grown_metadata v text)
  | addFile source originalPath size =>
    exact steps_discard ((attempts_addFileImpl hoptions _ _).weaken hattempts) fun _ _ h => h.grown
  | addFileWithMetadata source metadata size =>
    refine steps_discard ((attempts_addFileWithMetadata hoptions metadata).weaken hattempts)
      fun _ _ ⟨v, hadded, hv⟩ => ?_
    rw [hv]
    exact hadded.grown.trans (grown_withChild v _ _)
  | addFolder metadata =>
    refine steps_discard ((attempts_addFolder metadata).weaken hattempts)
      fun id _ ⟨_, _, _, _, hv⟩ => ?_
    rw [hv]
    exact (grown_withChild w metadata.parent id).trans
      (Grown.of_same rfl rfl rfl rfl rfl rfl rfl List.prefix_rfl)
  | addSubstream parent name kind bytes =>
    refine steps_discard ((attempts_addSubstream parent name kind bytes).weaken hattempts)
      fun _ _ ⟨text, hv⟩ => ?_
    rw [hv]
    exact grown_metadata w text
  | addCaseMetadata metadata =>
    refine steps_discard ((attempts_addCaseMetadata metadata).weaken hattempts)
      fun _ _ ⟨text, hv⟩ => ?_
    rw [hv]
    exact grown_metadata w text
  | setPathSeparator separator =>
    refine ((attempts_setPathSeparator separator).weaken hattempts).imp fun _ _ hv => ?_
    rw [hv]
    exact Grown.of_same rfl rfl rfl rfl rfl rfl rfl List.prefix_rfl
  | setLogicalZipThreshold bytes =>
    refine ((attempts_setLogicalZipThreshold bytes).weaken hattempts).imp fun _ _ hv => ?_
    rw [hv]
    exact Grown.of_same rfl rfl rfl rfl rfl rfl rfl List.prefix_rfl
  | addDirectoryTree fs options limits root =>
    refine steps_discard (steps_addDirectoryTree hoptions fs options limits root)
      fun _ _ hcollected => ?_
    have hset : Grown libraries w { w with pathSeparator := fs.mainSeparator } :=
      Grown.of_same rfl rfl rfl rfl rfl rfl rfl List.prefix_rfl
    exact hset.trans hcollected.grown

/-! ### Poisoned writers -/

def discardError : WriteError := .error (.unsupported "acquisition failed; discard this writer")

theorem bind_error {ε τ α β : Type} {x : EStateM ε τ α} {f : α → EStateM ε τ β} {s s' : τ} {e : ε}
    (h : x s = .error e s') : (x >>= f) s = .error e s' := by
  change EStateM.bind x f s = .error e s'
  unfold EStateM.bind
  rw [h]

theorem healthy_poisoned {s : State σ} (h : s.writer.poisoned = true) :
    (healthy : Write σ Unit) s = .error discardError s := by
  change (if s.writer.poisoned then throw discardError else pure () : Write σ Unit) s = _
  rw [if_pos h]
  rfl

theorem perform_poisoned {s : State σ} (h : s.writer.poisoned = true) (op : Operation σ) :
    op.perform libraries env s = .error discardError s := by
  have hhealthy := healthy_poisoned h
  cases op with
  | addImage source size => exact bind_error (bind_error hhealthy)
  | addImageWithSectorSize source size sectorSize => exact bind_error (bind_error hhealthy)
  | addFile source originalPath size => exact bind_error (bind_error hhealthy)
  | addFileWithMetadata source metadata size =>
    exact bind_error (bind_error (bind_error hhealthy))
  | addFolder metadata => exact bind_error (bind_error (bind_error hhealthy))
  | addSubstream parent name kind bytes => exact bind_error (bind_error hhealthy)
  | addCaseMetadata metadata => exact bind_error (bind_error hhealthy)
  | setPathSeparator separator => exact bind_error hhealthy
  | setLogicalZipThreshold bytes => exact bind_error hhealthy
  | addDirectoryTree fs options limits root =>
    exact bind_error (bind_error (bind_error hhealthy))

theorem onWriter_error {α : Type} {x : Write σ α} {s : Staged σ} {e : WriteError}
    (h : x s.state = .error e s.state) : onWriter x s = .error e s := by
  unfold onWriter
  rw [h]

theorem run_error {s : Staged σ} (h : s.state.writer.poisoned = true) (command : Command σ) :
    command.run libraries env s = .error discardError s := by
  have hhealthy : onWriter healthy s = .error discardError s := onWriter_error (healthy_poisoned h)
  cases command with
  | operation op => exact onWriter_error (perform_poisoned h op)
  | finish => exact bind_error (bind_error hhealthy)
  | finishVerified verification => exact bind_error (bind_error hhealthy)

end Operations

/-! ## Sessions -/

section Sessions

variable {σ : Type} {libraries : WriterLibraries} {env : Environment σ} {start w : Writer}
  {s : Session σ}

theorem Finishes.endOf {α : Type} {E : Writer → Option (List Member) → Prop}
    {p : Option (List Member)} {Q : α → Writer → Option (List Member) → Prop} {x : Finish σ α}
    (hx : Finishes E w p x Q) (himp : ∀ a w' p', Q a w' p' → E w' p') {s : Staged σ}
    (hw : s.state.writer = w) (hp : s.published = p) :
    E (endOf (x s)).state.writer (endOf (x s)).published := by
  have hrun := hx s ⟨hw, hp⟩
  cases hxs : x s with
  | ok a s' =>
    rw [hxs] at hrun
    exact himp a _ _ hrun
  | error e s' =>
    rw [hxs] at hrun
    exact hrun

/-- The ways in which a writer is finished. -/
theorem finishes_command {command : Command σ} (hconsumes : command.consumes = true) :
    Finishes (Published libraries w) w none (command.run libraries env)
      fun _ w' p => Published libraries w w' p := by
  have hnone : ∀ w' : Writer, Published libraries w w' none := fun w' => .inl rfl
  cases command with
  | operation op => cases hconsumes
  | finish =>
    refine Finishes.bind (finishes_finishChecked fun _ _ _ => steps_pure rfl)
      fun result w' p ⟨_, metadata, hgrown, hlength, _, hstreams, hp⟩ => finishes_pure ?_
    exact .inr ⟨metadata, hgrown, hlength, hstreams, hp⟩
  | finishVerified verification =>
    refine Finishes.bind
      (finishes_finishChecked fun members digest v => steps_verifyStaged (hnone v) _ _ _)
      fun result w' p ⟨_, metadata, hgrown, hlength, _, hstreams, hp⟩ => finishes_pure ?_
    exact .inr ⟨metadata, hgrown, hlength, hstreams, hp⟩

theorem finishes_operation (hoptions : w.options.Valid) (op : Operation σ) :
    Finishes (fun w' p => p = none ∧ (w'.poisoned = true ∨ Grown libraries w w')) w none
      ((Command.operation op).run libraries env) fun _ w' p => p = none ∧ Grown libraries w w' := by
  have hperform : Steps (fun w' => (none : Option (List Member)) = none ∧
      (w'.poisoned = true ∨ Grown libraries w w')) w (op.perform libraries env)
      fun _ w' => Grown libraries w w' := by
    refine (steps_perform hoptions op).weaken fun w' hleft => ⟨rfl, ?_⟩
    rcases hleft with hpoisoned | ⟨separator, _, rfl⟩
    · exact .inl hpoisoned
    · exact .inr (Grown.of_same rfl rfl rfl rfl rfl rfl rfl List.prefix_rfl)
  exact (finishes_onWriter
    (E := fun w' p => p = none ∧ (w'.poisoned = true ∨ Grown libraries w w')) hperform).imp
    fun _ _ _ h => ⟨h.2, h.1⟩

/-- What holds of a session, whatever its commands are. -/
structure Sound (libraries : WriterLibraries) (start : Writer) (s : Session σ) : Prop where
  working : s.opened = true → s.published = none ∧
    (s.state.writer.poisoned = true ∨ Grown libraries start s.state.writer)
  whole : s.published = none ∨ ∃ v, Grown libraries start v ∧
    Published libraries v s.state.writer s.published

theorem sound_start (world : σ) : Sound libraries start (Session.start world start) :=
  ⟨fun _ => ⟨rfl, .inr (Grown.refl start)⟩, .inl rfl⟩

theorem next_poisoned (hpoisoned : s.state.writer.poisoned = true) (command : Command σ) :
    (s.next libraries env command).toStaged = s.toStaged := by
  unfold Session.next
  split
  · rw [run_error hpoisoned command]
    rfl
  · rfl

theorem Sound.next (hoptions : start.options.Valid) (h : Sound libraries start s)
    (command : Command σ) : Sound libraries start (s.next libraries env command) := by
  by_cases hopened : s.opened = true
  · obtain ⟨hnone, hworking⟩ := h.working hopened
    have hnext : s.next libraries env command =
        { toStaged := endOf (command.run libraries env s.toStaged)
          opened := !command.consumes } := if_pos hopened
    rcases hworking with hpoisoned | hgrown
    · have hstaged := @next_poisoned σ libraries env s hpoisoned command
      have hwriter := congrArg (fun s : Staged σ => s.state.writer) hstaged
      have hpublished := (congrArg Staged.published hstaged).trans hnone
      exact ⟨fun _ => ⟨hpublished, .inl (hwriter ▸ hpoisoned)⟩, .inl hpublished⟩
    · rw [hnext]
      cases hconsumes : command.consumes with
      | true =>
        have hend := (@finishes_command σ libraries env s.state.writer command hconsumes).endOf
          (fun _ _ _ h => h) rfl hnone
        exact ⟨fun hfalse => (by cases hfalse), .inr ⟨_, hgrown, hend⟩⟩
      | false =>
        cases command with
        | finish => cases hconsumes
        | finishVerified verification => cases hconsumes
        | operation op =>
          have hvalid : s.state.writer.options.Valid := hgrown.options ▸ hoptions
          have hend := (@finishes_operation σ libraries env s.state.writer hvalid op).endOf
            (fun _ _ _ h => ⟨h.1, .inr h.2⟩) rfl hnone
          exact ⟨fun _ => ⟨hend.1, hend.2.imp_right hgrown.trans⟩, .inl hend.1⟩
  · have hsame : s.next libraries env command = s := if_neg hopened
    rw [hsame]
    exact h

theorem sound_run (hoptions : start.options.Valid) (h : Sound libraries start s)
    (commands : List (Command σ)) : Sound libraries start (s.run libraries env commands) := by
  induction commands generalizing s with
  | nil => exact h
  | cons command commands ih => exact ih (h.next hoptions command)

theorem create_eq_ok {path : Path} {profile : Profile} {options : WriteOptions} {volume : String}
    (h : Writer.create path profile options volume = .ok w) :
    w.options.Valid ∧ w.members.length = 2 ∧ w.archiveEntries = 2 ∧ w.streams = [] ∧
      w.options = options ∧ w.volume = volume := by
  simp only [Writer.create, bind_eq_ok, pure_eq_ok, Except.ok.injEq] at h
  obtain ⟨_, hgeometry, _, _, rfl⟩ := h
  have hvalid : ¬ (options.chunkBytes = 0 ∨ 16 * 1024 * 1024 < options.chunkBytes ∨
      options.chunksPerBevy = 0 ∨
      128 * 1024 * 1024 < options.chunkBytes * options.chunksPerBevy) := by
    by_contra hc
    rw [refuseIf, rejectIf_pos _ hc] at hgeometry
    cases hgeometry
  exact ⟨⟨by dsimp only; omega, by dsimp only; omega⟩, rfl, rfl, rfl, rfl, rfl⟩

variable {path : Path} {profile : Profile} {options : WriteOptions} {volume : String}
  {members : List Member}

theorem created_run (hcreate : Writer.create path profile options volume = .ok w) (world : σ)
    (commands : List (Command σ)) :
    Sound libraries w ((Session.start world w).run libraries env commands) :=
  sound_run (create_eq_ok hcreate).1 (sound_start world) commands

/-! ### A plain environment -/

/-- Libraries that encode nothing. -/
def WriterLibraries.plain : WriterLibraries where
  toLibraries := Libraries.plain (fun _ => []) []
  zlibEncode := .ok
  snappyCompress := .ok
  lz4Compress bytes := bytes
  literal text := "\"" ++ text ++ "\""
  base64Encode _ := ""
  rfc3339 _ := some (some "1970-01-01T00:00:00Z")
  display _ := "/s"

/-- Nothing fails, and every identifier is the same. -/
def Environment.plain : Environment Unit where
  uuid s := (⟨"6ba7b810-9dad-41d1-80b4-00c04fd430c8", rfl⟩, s)
  startFile _ s := (none, s)
  writeAll _ s := (none, s)
  finishZip _ s := (none, s)
  persistNoclobber _ s := (none, s)
  syncPublishedDirectory s := (none, s)
  currentNumThreads := 1

/-- Zeros, as many as are read. -/
def zeros (size : Nat) : { bytes : Bytes // bytes.length = size } :=
  ⟨List.replicate size 0, List.length_replicate⟩

def Source.zeros : Source Unit where
  readExact size s := (.ok (Writing.zeros size), s)
  progress _ _ s := (false, s)

def Source.broken : Source Unit where
  readExact _ s := (.error (.io "failed to fill whole buffer"), s)
  progress _ _ s := (false, s)

/-- A writer that stores its chunks as they are. -/
def Writer.plain (profile : Profile) : Writer where
  members := [⟨"container.description", utf8Bytes "aff4://v", false⟩,
    ⟨"version.txt", utf8Bytes (match profile with
      | .physical => "major=1\nminor=0\ntool=aff4-image 0.2.0\n"
      | .logical => "major=1\nminor=1\ntool=aff4-image 0.2.0\n"), false⟩]
  path := [[101]]
  profile
  volume := "aff4://v"
  options := { compression := .stored }
  metadata := utf8Bytes ("@prefix a: <http://aff4.org/Schema#> .\n" ++
    "@prefix l: <https://aff4.org/Schema/2022/#> .\n" ++ "<aff4://v> a a:ZipVolume .\n")

theorem create_plain (profile : Profile) :
    Writer.create [[101]] profile { compression := .stored } "aff4://v" =
      .ok (Writer.plain profile) := by
  cases profile <;> rfl

/-- The session of a plain writer. -/
def Session.plain (profile : Profile) (commands : List (Command Unit)) : Session Unit :=
  (Session.start () (.plain profile)).run .plain .plain commands

def FileMetadata.plain (kind : FileKind) (len : Nat) : FileMetadata where
  kind
  len
  created := none
  modified := none
  accessed := none
  mode := 0o644
  ino := len
  dev := 1
  ctime := 0
  ctimeNsec := 0

/-- A directory with one file of two bytes. -/
def FileSystem.plain : FileSystem Unit where
  mainSeparator := '/'
  rootMetadata _ s := (.ok (.plain .directory 0), s)
  canonicalize _ s := (.ok [[115]], s)
  isDir _ s := (true, s)
  symlinkMetadata path s :=
    (.ok (if path = [[115]] then .plain .directory 0 else .plain .file 2), s)
  readDir _ s := (.ok [.ok [97]], s)
  openFile _ s := (.ok 0, s)
  fileMetadata _ s := (.ok (.plain .file 2), s)
  readFile _ size s := (.ok (zeros size), s)
  progress _ _ _ s := (false, s)

def CollectionLimits.plain : CollectionLimits where
  reader := .unrestricted
  entries := 100
  depth := 8

/-- The collection of that directory. -/
def collectedPlain : EStateM.Result WriteError (State Unit) CollectionReport :=
  addDirectoryTreeWithLimits .plain .plain .plain {} .plain [115] (Session.plain .logical []).state

/-- An operation that fails leaves a poisoned writer, or changes nothing of it but for the
separator that the collection of a directory tree sets first. -/
theorem failed_operation_leaves (hcreate : Writer.create path profile options volume = .ok w)
    (world : σ) (commands : List (Command σ)) (op : Operation σ) {e : WriteError} {state : State σ}
    (hopened : ((Session.start world w).run libraries env commands).opened = true)
    (hfails : op.perform libraries env
      ((Session.start world w).run libraries env commands).state = .error e state) :
    op.Left ((Session.start world w).run libraries env commands).state.writer state.writer := by
  obtain ⟨_, hpoisoned | hgrown⟩ := (created_run hcreate world commands).working hopened
  · rw [perform_poisoned hpoisoned op] at hfails
    cases hfails
    exact .inl hpoisoned
  · have hvalid := hgrown.options ▸ (create_eq_ok hcreate).1
    exact Triple.error (steps_perform hvalid op) rfl hfails

theorem failed_operation_leaves_broken : ∃ e state,
    (Operation.addImage Source.broken 5).perform .plain .plain
      (Session.plain .physical [.operation (.addImage .zeros 3)]).state = .error e state ∧
    (Operation.addImage Source.broken 5).Left
      (Session.plain .physical [.operation (.addImage .zeros 3)]).state.writer state.writer :=
  ⟨_, _, rfl, failed_operation_leaves (create_plain .physical) ()
    [.operation (.addImage .zeros 3)] _ rfl rfl⟩

/-- A poisoned writer fails at every command, and never publishes anything. -/
theorem poisoned_session (hpoisoned : s.state.writer.poisoned = true)
    (commands : List (Command σ)) :
    (s.run libraries env commands).toStaged = s.toStaged ∧
      ∀ command : Command σ, command.run libraries env s.toStaged =
        .error discardError s.toStaged := by
  refine ⟨?_, run_error hpoisoned⟩
  induction commands generalizing s with
  | nil => rfl
  | cons command commands ih =>
    have hnext := @next_poisoned σ libraries env s hpoisoned command
    have hwriter := congrArg (fun s : Staged σ => s.state.writer) hnext
    exact (ih (hwriter ▸ hpoisoned)).trans hnext

theorem poisoned_session_broken :
    ((Session.plain .physical [.operation (.addImage .broken 5)]).run .plain .plain
        [.finish, .finish]).toStaged =
        (Session.plain .physical [.operation (.addImage .broken 5)]).toStaged ∧
      ∀ command : Command Unit, command.run .plain .plain
        (Session.plain .physical [.operation (.addImage .broken 5)]).toStaged =
          .error discardError
            (Session.plain .physical [.operation (.addImage .broken 5)]).toStaged :=
  poisoned_session rfl _

/-- Whatever has been done with a writer and whatever has failed, a container that is published
consists of the members that the writer has started with, the whole members of its additions in
their order, and its metadata with the digest of it; and the streams of the writer are those of
the additions. -/
theorem published_whole (hcreate : Writer.create path profile options volume = .ok w) (world : σ)
    (commands : List (Command σ))
    (hpublished : ((Session.start world w).run libraries env commands).published = some members) :
    ∃ (additions : List Addition) (groups : List (List Member)) (metadata : Bytes),
      additions.mapM (·.members libraries options) = .ok groups ∧
      members = w.members ++ groups.flatten ++ [⟨"information.turtle", metadata, false⟩,
        hashesMember volume (hex (libraries.sha256 metadata))] ∧
      w.metadata <+: metadata ∧
      ((Session.start world w).run libraries env commands).state.writer.streams =
        additions.map (·.stream libraries) := by
  obtain ⟨_, _, _, hstreams, hoptions, hvolume⟩ := create_eq_ok hcreate
  rcases (created_run hcreate world commands).whole with hnone | ⟨v, hgrown, hnone | hfinished⟩
  · rw [hpublished] at hnone
    cases hnone
  · rw [hpublished] at hnone
    cases hnone
  · obtain ⟨metadata, hmetadata, _, hsame, hmembers⟩ := hfinished
    obtain ⟨additions, groups, hgroups, hwhole, _, hadded⟩ := hgrown.whole
    rw [hpublished, Option.some.injEq] at hmembers
    refine ⟨additions, groups, metadata, hoptions ▸ hgroups, ?_,
      hgrown.metadata.trans hmetadata, ?_⟩
    · rw [hmembers, finishedMembers, hwhole, hgrown.volume, hvolume]
    · rw [hsame, hadded, hstreams, List.nil_append]

theorem published_whole_zeros : ∃ members,
    (Session.plain .physical [.operation (.addImage .zeros 3), .finish]).published =
        some members ∧
      ∃ (additions : List Addition) (groups : List (List Member)) (metadata : Bytes),
        additions.mapM (·.members .plain { compression := .stored }) = .ok groups ∧
        members = (Writer.plain .physical).members ++ groups.flatten ++
          [⟨"information.turtle", metadata, false⟩,
            hashesMember "aff4://v" (hex (WriterLibraries.plain.sha256 metadata))] ∧
        (Writer.plain .physical).metadata <+: metadata ∧
        (Session.plain .physical
            [.operation (.addImage .zeros 3), .finish]).state.writer.streams =
          additions.map (·.stream .plain) :=
  ⟨_, rfl, published_whole (create_plain .physical) ()
    [.operation (.addImage .zeros 3), .finish] rfl⟩

/-- When the collection of a directory tree succeeds and the writer is finished next, the container
is within the limits that were given for its reader, and the report is true. -/
theorem collected_container_fits (hcreate : Writer.create path profile options volume = .ok w)
    (world : σ) (commands : List (Command σ)) (fs : FileSystem σ)
    (collection : CollectionOptions) (limits : CollectionLimits) (root : Bytes)
    {report : CollectionReport} {state : State σ}
    (hopened : ((Session.start world w).run libraries env commands).opened = true)
    (hcollected : addDirectoryTreeWithLimits libraries env fs collection limits root
      ((Session.start world w).run libraries env commands).state = .ok report state)
    {command : Command σ} (hconsumes : command.consumes = true)
    (hpublished : (endOf (command.run libraries env { state := state })).published =
      some members) :
    members.length ≤ limits.reader.archiveEntries ∧
      (∃ before metadata, members = before ++ [⟨"information.turtle", metadata, false⟩,
          hashesMember volume (hex (libraries.sha256 metadata))] ∧
        metadata.length ≤ limits.reader.metadataBytes) ∧
      (state.writer.streams.map (·.size)).sum ≤ limits.reader.verificationBytes ∧
      Reported limits ((Session.start world w).run libraries env commands).state.writer report
        state.writer := by
  obtain ⟨hvalid, hheader, hentries, _, _, hvolume⟩ := create_eq_ok hcreate
  obtain ⟨_, hpoisoned | hgrown⟩ := (created_run hcreate world commands).working hopened
  · have hfails : addDirectoryTreeWithLimits libraries env fs collection limits root
        ((Session.start world w).run libraries env commands).state = .error discardError _ :=
      bind_error (bind_error (healthy_poisoned hpoisoned))
    rw [hfails] at hcollected
    cases hcollected
  · have hvalid' := hgrown.options ▸ hvalid
    have hcollection : Collected libraries limits _ report state.writer :=
      Triple.ok (steps_addDirectoryTree hvalid' fs collection limits root) rfl hcollected
    have hset : Grown libraries ((Session.start world w).run libraries env commands).state.writer
        { ((Session.start world w).run libraries env commands).state.writer with
          pathSeparator := fs.mainSeparator } :=
      Grown.of_same rfl rfl rfl rfl rfl rfl rfl List.prefix_rfl
    have hall := hgrown.trans (hset.trans hcollection.grown)
    obtain ⟨_, groups, _, hwhole, hcounted, _⟩ := hall.whole
    have hend := (@finishes_command σ libraries env state.writer command hconsumes).endOf
      (fun _ _ _ h => h) (s := { state := state }) rfl rfl
    rcases hend with hnone | ⟨metadata, _, hlength, _, hmembers⟩
    · rw [hpublished] at hnone
      cases hnone
    · rw [hpublished, Option.some.injEq] at hmembers
      have hfits := hcollection.fits
      have hmetadata := hfits.metadata
      have hcount := hfits.entries
      refine ⟨?_, ⟨state.writer.members, metadata, ?_, by omega⟩, hfits.bytes, ?_⟩
      · rw [hmembers, finishedMembers, hwhole]
        simp only [List.length_append, List.length_cons, List.length_nil]
        omega
      · rw [hmembers, finishedMembers, hall.volume, hvolume]
      · exact ⟨hcollection.reported.streams, hcollection.reported.entries⟩

theorem collected_container_fits_plain : ∃ report state members,
    addDirectoryTreeWithLimits .plain .plain .plain {} .plain [115]
        (Session.plain .logical []).state = .ok report state ∧
      (endOf (Command.finish.run .plain .plain { state := state })).published = some members ∧
      members.length ≤ CollectionLimits.plain.reader.archiveEntries ∧
      (∃ before metadata, members = before ++ [⟨"information.turtle", metadata, false⟩,
          hashesMember "aff4://v" (hex (WriterLibraries.plain.sha256 metadata))] ∧
        metadata.length ≤ CollectionLimits.plain.reader.metadataBytes) ∧
      (state.writer.streams.map (·.size)).sum ≤ CollectionLimits.plain.reader.verificationBytes ∧
      Reported .plain (Session.plain .logical []).state.writer report state.writer := by
  have hsucceeds : (match collectedPlain with
      | .ok _ _ => true
      | .error _ _ => false) = true := by decide +kernel
  have hfinished : (endOf (Command.finish.run .plain .plain
      { state := endOf collectedPlain })).published.isSome = true := by decide +kernel
  cases hcollected : collectedPlain with
  | error e state =>
    rw [hcollected] at hsucceeds
    cases hsucceeds
  | ok report state =>
    rw [hcollected] at hfinished
    obtain ⟨members, hpublished⟩ := Option.isSome_iff_exists.mp hfinished
    exact ⟨report, state, members, hcollected, hpublished, collected_container_fits
      (create_plain .logical) () [] .plain {} .plain [115] rfl hcollected rfl hpublished⟩

end Sessions

end EwfImage.Aff4.Writing

import EwfImage.Aff4.WriterGrowth
import Mathlib.Algebra.Order.BigOperators.Group.List

/-!
# What the budget of a collection covers

The records of folders and roots are written when the container is finished, but the budget
charges them when they are added. So the metadata that has been charged is never less than the
metadata that the finished container holds.

`walks_added` is the step: what an addition charges is at least what it writes, now and in the
end. The sizes of the records are those of the texts that are written, whatever names the tree
has.
-/

namespace EwfImage.Aff4.Writing

open Fallible Std Triples Word

/-! ## Sizes of records -/

section Sizes

variable (libraries : WriterLibraries)

def childSize (id : String) : Nat := (utf8Bytes s!"; a:child <{id}>").length

def rootSize (root : String) : Nat := (utf8Bytes s!"; a:filesystemRoot <{root}>").length

def recordSize (entry : String × Folder) : Nat := (folderRecord entry).length

def foldersSize (folders : TreeMap String Folder) : Nat := (folders.toList.map recordSize).sum

/-- The size of the first part of the record of the acquisition roots. -/
def rootsHeaderSize (separator : Char) : Nat := (Budget.rootsHeader libraries "" separator).length + 43

def rootsSize (separator : Char) (roots : List String) : Nat :=
  if roots = [] then 0 else rootsHeaderSize libraries separator + (roots.map rootSize).sum

/-- What a writer still writes into its metadata when it is finished. -/
def Writer.recordsSize (w : Writer) : Nat :=
  foldersSize w.folders + rootsSize libraries w.pathSeparator w.roots

def issueSize (issue : CollectionIssue) : Nat := (utf8Bytes (issueMetadata libraries issue)).length

/-- The size of the record of a collection that is reserved for it. -/
def reservedSize : Nat :=
  (utf8Bytes (taskHeader libraries "" (u64Limit - 1) (u64Limit - 1))).length + 43 + 3

variable {libraries}

theorem length_utf8Bytes (text : String) : (utf8Bytes text).length = text.utf8ByteSize := rfl

theorem length_utf8Bytes_append (text text' : String) :
    (utf8Bytes (text ++ text')).length = (utf8Bytes text).length + (utf8Bytes text').length :=
  String.utf8ByteSize_append

theorem length_flatMap_sum {α : Type} (f : α → Bytes) (xs : List α) :
    (xs.flatMap f).length = (xs.map fun x => (f x).length).sum := by
  rw [List.length_flatMap]

theorem length_bareRecord (id : String) (folder : Folder) :
    (Budget.bareRecord id folder).length =
      (utf8Bytes s!"<{id}> {folder.properties}").length + (utf8Bytes " .\n").length := by
  rw [← length_utf8Bytes_append]
  unfold Budget.bareRecord
  simp only [String.append_assoc]
  rfl

theorem recordSize_eq (id : String) (folder : Folder) :
    recordSize (id, folder) =
      (Budget.bareRecord id folder).length + (folder.children.map childSize).sum := by
  have hchildren : (folder.children.map childSize).sum = (folder.children.map fun child =>
      (utf8Bytes s!"; a:child <{child}>").length).sum := rfl
  unfold recordSize folderRecord
  rw [length_bareRecord, List.length_append, List.length_append, length_flatMap_sum, hchildren]
  dsimp only
  omega

theorem length_rootsHeader {task : String} (htask : task.utf8ByteSize = 43) (separator : Char) :
    (Budget.rootsHeader libraries task separator).length = rootsHeaderSize libraries separator := by
  have htext : ∀ task, (Budget.rootsHeader libraries task separator).length =
      (utf8Bytes "<").length + (utf8Bytes task).length +
        (utf8Bytes (s!"> a a:LogicalAcquisitionTask; " ++
          s!"l:pathSeparator {libraries.literal separator.toString} .\n")).length := by
    intro task
    rw [← length_utf8Bytes_append, ← length_utf8Bytes_append]
    simp only [Budget.rootsHeader, ← String.append_assoc]
    rfl
  unfold rootsHeaderSize
  rw [htext, htext, length_utf8Bytes task, htask]
  simp [length_utf8Bytes]
  omega

theorem length_rootsRecord {task : String} (htask : task.utf8ByteSize = 43) (separator : Char)
    {roots : List String} (hroots : roots ≠ []) :
    (rootsRecord libraries task separator roots).length =
      rootsSize libraries separator roots := by
  have htext : Budget.rootsHeader libraries task separator =
      utf8Bytes ((s!"<{task}> a a:LogicalAcquisitionTask; " ++
        s!"l:pathSeparator {libraries.literal separator.toString}") ++ " .\n") := by
    unfold Budget.rootsHeader
    simp only [String.append_assoc]
    rfl
  have hheader := @length_rootsHeader libraries task htask separator
  have hsum : (roots.map rootSize).sum = (roots.map fun root =>
      (utf8Bytes s!"; a:filesystemRoot <{root}>").length).sum := rfl
  rw [htext, length_utf8Bytes_append] at hheader
  unfold rootsRecord rootsSize
  rw [if_neg hroots, List.length_append, List.length_append, length_flatMap_sum, hsum, ← hheader]
  omega

theorem rootsSize_append (separator : Char) (roots more : List String) :
    rootsSize libraries separator (roots ++ more) = rootsSize libraries separator roots +
      (if roots = [] ∧ more ≠ [] then rootsHeaderSize libraries separator else 0) +
        (more.map rootSize).sum := by
  unfold rootsSize
  by_cases hroots : roots = []
  · by_cases hmore : more = []
    · simp [hroots, hmore]
    · simp [hroots, hmore]
  · simp [hroots]
    omega

/-! ### The record of a collection -/

theorem length_utf8Bytes_digits {digits : List Char} (h : ∀ c ∈ digits, c.isDigit = true) :
    (utf8Bytes (String.ofList digits)).length = digits.length := by
  induction digits with
  | nil => rfl
  | cons c digits ih =>
    have hsplit : String.ofList (c :: digits) = String.singleton c ++ String.ofList digits := by
      rw [String.singleton_eq_ofList, ← String.ofList_append, List.singleton_append]
    have hsize : c.utf8Size = 1 := by
      have hdigit := h c List.mem_cons_self
      have hval : c.val ≤ 0x7f := by
        simp only [Char.isDigit, Bool.and_eq_true, decide_eq_true_eq] at hdigit
        exact UInt32.le_trans hdigit.2 (by decide)
      exact if_pos hval
    rw [hsplit, length_utf8Bytes_append, ih fun c hc => h c (List.mem_cons_of_mem _ hc),
      length_utf8Bytes, String.utf8ByteSize_singleton, hsize, List.length_cons, Nat.add_comm]

/-- A number takes no more digits than a larger one. -/
theorem length_utf8Bytes_toString_le {n m : Nat} (h : n ≤ m) :
    (utf8Bytes (toString n)).length ≤ (utf8Bytes (toString m)).length := by
  have hdigits : ∀ n : Nat, (utf8Bytes (toString n)).length = (Nat.toDigits 10 n).length :=
    fun n => by
      have hrepr : toString n = String.ofList (Nat.toDigits 10 n) := Nat.repr_eq_ofList_toDigits
      rw [hrepr]
      exact length_utf8Bytes_digits fun c hc =>
        Nat.isDigit_of_mem_toDigits (by decide) (by decide) hc
  rw [hdigits, hdigits]
  have hm := (Nat.length_toDigits_le_iff (by decide) Nat.length_toDigits_pos).mp
    (Nat.le_refl (Nat.toDigits 10 m).length)
  exact (Nat.length_toDigits_le_iff (by decide) Nat.length_toDigits_pos).mpr (by omega)

/-- The size of the record without its issues depends on the sizes of what it names. -/
theorem exists_length_taskHeader (libraries : WriterLibraries) : ∃ n, ∀ task files bytes,
    (utf8Bytes (taskHeader libraries task files bytes)).length = n + (utf8Bytes task).length +
      (utf8Bytes (toString files)).length + (utf8Bytes (toString bytes)).length := by
  refine ⟨(utf8Bytes "<").length + (utf8Bytes "> a a:LogicalAcquisitionTask; a:notes ").length +
    (utf8Bytes (libraries.literal taskNotes)).length + (utf8Bytes "; ").length +
    (utf8Bytes "a:filesCollected ").length + (utf8Bytes "; a:bytesCollected ").length,
    fun task files bytes => ?_⟩
  have hsplit : taskHeader libraries task files bytes = "<" ++ task ++
      "> a a:LogicalAcquisitionTask; a:notes " ++ libraries.literal taskNotes ++ "; " ++
      ("a:filesCollected " ++ toString files ++ "; a:bytesCollected " ++ toString bytes) := rfl
  rw [hsplit]
  simp only [length_utf8Bytes_append]
  omega

theorem length_taskHeader {task : String} (htask : task.utf8ByteSize = 43) (files bytes : Nat) :
    (utf8Bytes (taskHeader libraries task files bytes)).length =
      (utf8Bytes (taskHeader libraries "" files bytes)).length + 43 := by
  obtain ⟨n, hn⟩ := exists_length_taskHeader libraries
  have hempty : (utf8Bytes "").length = 0 := rfl
  rw [hn, hn, length_utf8Bytes task, htask, hempty]
  omega

/-- The record that is reserved is large enough for every record. -/
theorem length_taskMetadata_le {task : String} (htask : task.utf8ByteSize = 43) {files bytes : Nat}
    (hfiles : files < u64Limit) (hbytes : bytes < u64Limit) :
    (utf8Bytes (taskHeader libraries task files bytes)).length + 3 ≤ reservedSize libraries := by
  obtain ⟨n, hn⟩ := exists_length_taskHeader libraries
  have hfiles' := length_utf8Bytes_toString_le (show files ≤ u64Limit - 1 by omega)
  have hbytes' := length_utf8Bytes_toString_le (show bytes ≤ u64Limit - 1 by omega)
  unfold reservedSize
  rw [length_taskHeader htask, hn, hn]
  omega

/-! ### Folders -/

variable {folders : TreeMap String Folder} {id parent : String} {folder : Folder}

theorem sum_filter_add {α : Type} (f : α → Nat) (p : α → Bool) (xs : List α) :
    (xs.map f).sum = ((xs.filter p).map f).sum + ((xs.filter fun x => !p x).map f).sum := by
  induction xs with
  | nil => rfl
  | cons x xs ih =>
    by_cases hx : p x
    · simp [hx, ih]
      omega
    · simp [hx, ih]
      omega

theorem foldersSize_insert (folders : TreeMap String Folder) (id : String) (folder : Folder) :
    foldersSize (folders.insert id folder) = recordSize (id, folder) +
      ((folders.toList.filter fun entry => ¬ id == entry.1).map recordSize).sum := by
  have hperm := (TreeMap.toList_insert_perm (t := folders) (k := id) (v := folder)).map recordSize
  unfold foldersSize
  rw [hperm.sum_nat, List.map_cons, List.sum_cons]

theorem foldersSize_insert_le (folders : TreeMap String Folder) (id : String) (folder : Folder) :
    foldersSize (folders.insert id folder) ≤ foldersSize folders + recordSize (id, folder) := by
  have hsplit := sum_filter_add recordSize (fun entry => ¬ id == entry.1) folders.toList
  have hinsert := foldersSize_insert folders id folder
  unfold foldersSize at hinsert ⊢
  omega

/-- A folder with one more child. -/
theorem foldersSize_child (hfolder : folders[parent]? = some folder) :
    foldersSize (folders.insert parent { folder with children := folder.children ++ [id] }) ≤
      foldersSize folders + childSize id := by
  have hmem : (parent, folder) ∈ folders.toList.filter fun entry => !decide ¬ parent == entry.1 := by
    simp [TreeMap.mem_toList_iff_getElem?_eq_some, hfolder]
  have hle := List.le_sum_of_mem (List.mem_map_of_mem (f := recordSize) hmem)
  have hsplit := sum_filter_add recordSize (fun entry => ¬ parent == entry.1) folders.toList
  have hinsert := foldersSize_insert folders parent
    { folder with children := folder.children ++ [id] }
  have hrecord : recordSize (parent, { folder with children := folder.children ++ [id] }) =
      recordSize (parent, folder) + childSize id := by
    rw [recordSize_eq, recordSize_eq]
    simp [Budget.bareRecord]
    omega
  unfold foldersSize at hinsert ⊢
  omega

end Sizes

/-! ## Charges -/

section Charges

variable {libraries : WriterLibraries} {limits : CollectionLimits} {budget budget' : Budget}
  {n : Nat}

/-- What a charge of `n` bytes does. -/
structure Charges (limits : CollectionLimits) (n : Nat) (budget budget' : Budget) : Prop where
  metadata : budget'.metadata = budget.metadata + n
  within : budget.metadata ≤ limits.reader.metadataBytes →
    budget'.metadata ≤ limits.reader.metadataBytes
  offset : budget'.offset = budget.offset
  roots : budget'.roots = budget.roots
  bytes : budget'.bytes = budget.bytes
  discovered : budget'.discovered = budget.discovered

theorem Charges.refl (budget : Budget) : Charges limits 0 budget budget :=
  ⟨rfl, fun h => h, rfl, rfl, rfl, rfl⟩

theorem Charges.trans {m : Nat} {budget'' : Budget} (h : Charges limits n budget budget')
    (h' : Charges limits m budget' budget'') : Charges limits (n + m) budget budget'' :=
  ⟨by rw [h'.metadata, h.metadata, Nat.add_assoc], fun hle => h'.within (h.within hle),
    h'.offset.trans h.offset, h'.roots.trans h.roots, h'.bytes.trans h.bytes,
    h'.discovered.trans h.discovered⟩

theorem check_eq_ok {resource : String} {required limit : Nat} {u : Unit} :
    check resource required limit = .ok u ↔ required ≤ limit := by
  unfold check
  rw [rejectIf_eq_ok, Nat.not_lt]

theorem charge_eq_ok {triples : Nat} (h : budget.charge limits n triples = .ok budget') :
    Charges limits n budget budget' := by
  simp only [Budget.charge, bind_eq_ok, okOr_eq_ok, checkedAdd_eq_some, check_eq_ok, pure_eq_ok,
    Except.ok.injEq] at h
  obtain ⟨metadata, ⟨_, rfl⟩, triples', _, _, hle, _, _, rfl⟩ := h
  exact ⟨rfl, fun _ => hle, rfl, rfl, rfl, rfl⟩

theorem charges_foldlM {α : Type} {f : Budget → α → Except WriteError Budget} {size : α → Nat}
    (hf : ∀ budget budget' x, f budget x = .ok budget' → Charges limits (size x) budget budget')
    (xs : List α) (h : xs.foldlM f budget = .ok budget') :
    Charges limits (xs.map size).sum budget budget' := by
  induction xs generalizing budget with
  | nil =>
    cases h
    exact Charges.refl _
  | cons x xs ih =>
    rw [List.foldlM_cons, bind_eq_ok] at h
    obtain ⟨next, hnext, h⟩ := h
    exact (hf _ _ _ hnext).trans (ih h)

theorem fragment_eq_ok {text : Bytes} (h : budget.fragment libraries limits text = .ok budget') :
    Charges limits text.length budget budget' := by
  simp only [Budget.fragment, bind_eq_ok] at h
  obtain ⟨charged, hcharged, h⟩ := h
  refine (charge_eq_ok hcharged).trans (m := 0) ?_
  have htriples : Charges limits
      ((libraries.turtle (Budget.prefixes ++ text)).map fun _ => 0).sum charged budget' := by
    refine charges_foldlM (fun budget budget' triple htriple => ?_) _ h
    cases triple with
    | ok _ => exact charge_eq_ok htriple
    | error e => cases htriple
  simpa using htriples

end Charges

/-! ## Observations -/

section Observations

variable {σ : Type} {libraries : WriterLibraries} {limits : CollectionLimits} {env : Environment σ}
  {budget budget' : Budget} {w : Writer}

/-- What counts is where a computation ends well. -/
abbrev Walks {α : Type} (w : Writer) (x : Write σ α) (Q : α → Writer → Prop) : Prop :=
  Steps (fun _ => True) w x Q

theorem Attempts.walks {α : Type} {x : Write σ α} {Q : α → Writer → Prop} (h : Attempts w x Q) :
    Walks w x Q :=
  Steps.weaken h fun _ _ => trivial

/-- The budget has caught up with the metadata and the roots of the writer, and has been charged
`n` bytes more. -/
structure Observed (libraries : WriterLibraries) (limits : CollectionLimits) (w : Writer) (n : Nat)
    (budget budget' : Budget) : Prop where
  offset : budget'.offset = w.metadata.length
  roots : budget'.roots = w.roots.length
  bytes : budget'.bytes = budget.bytes
  discovered : budget'.discovered = budget.discovered
  within : budget.metadata ≤ limits.reader.metadataBytes →
    budget'.metadata ≤ limits.reader.metadataBytes
  metadata : budget'.metadata + budget.offset +
      rootsSize libraries w.pathSeparator (w.roots.take budget.roots) =
    budget.metadata + w.metadata.length + rootsSize libraries w.pathSeparator w.roots + n

theorem Observed.charge {n m : Nat} {budget'' : Budget}
    (h : Observed libraries limits w n budget budget') (h' : Charges limits m budget' budget'') :
    Observed libraries limits w (n + m) budget budget'' := by
  refine ⟨h'.offset.trans h.offset, h'.roots.trans h.roots, h'.bytes.trans h.bytes,
    h'.discovered.trans h.discovered, fun hle => h'.within (h.within hle), ?_⟩
  have hm := h.metadata
  have hm' := h'.metadata
  omega

/-- The charge for the first part of the record of the roots. -/
theorem walks_rootsHeader :
    Walks w (if budget.roots = 0 ∧ w.roots ≠ [] then do
        let task ← identifier env
        ofWriteResult (budget.fragment libraries limits
          (Budget.rootsHeader libraries task w.pathSeparator))
      else pure budget)
      fun budget' w' => w' = w ∧ Charges limits
        (if w.roots.take budget.roots = [] ∧ w.roots.drop budget.roots ≠ [] then
          rootsHeaderSize libraries w.pathSeparator else 0) budget budget' := by
  refine steps_ite (fun hc => ?_) fun hc => ?_
  · refine Steps.bind attempts_identifier.walks fun task w' ⟨hw', htask⟩ => ?_
    subst hw'
    refine steps_ofWriteResult trivial fun budget' hbudget' => ⟨rfl, ?_⟩
    have hcharges := fragment_eq_ok hbudget'
    rw [length_rootsHeader htask] at hcharges
    rw [if_pos ⟨by rw [hc.1, List.take_zero], by rw [hc.1, List.drop_zero]; exact hc.2⟩]
    exact hcharges
  · refine steps_pure ⟨rfl, ?_⟩
    have hnone : ¬ (w.roots.take budget.roots = [] ∧ w.roots.drop budget.roots ≠ []) := by
      rintro ⟨htake, hdrop⟩
      rcases List.take_eq_nil_iff.mp htake with hzero | hnil
      · exact hc ⟨hzero, fun hnil => hdrop (by rw [hnil, List.drop_nil])⟩
      · exact hdrop (by rw [hnil, List.drop_nil])
    rw [if_neg hnone]
    exact Charges.refl _

theorem walks_observe (hoffset : budget.offset ≤ w.metadata.length) :
    Walks w (budget.observe libraries limits env)
      fun budget' w' => w' = w ∧ Observed libraries limits w 0 budget budget' := by
  refine steps_writer_bind ?_
  refine Steps.bind (Q := fun budget₁ v => v = w ∧
      Charges limits (w.metadata.drop budget.offset).length budget budget₁)
    (steps_ofWriteResult trivial fun _ h => ⟨rfl, fragment_eq_ok h⟩) fun budget₁ v ⟨hv, h₁⟩ => ?_
  subst hv
  refine Steps.bind walks_rootsHeader fun budget₂ v' ⟨hv', h₂⟩ => ?_
  subst hv'
  have hroots : ({ budget₁ with offset := v'.metadata.length } : Budget).roots = budget.roots :=
    h₁.roots
  rw [hroots] at h₂
  refine Steps.bind (Q := fun budget₃ u => u = v' ∧
      Charges limits ((v'.roots.drop budget.roots).map rootSize).sum budget₂ budget₃)
    (steps_ofWriteResult trivial fun budget₃ h => ⟨rfl, ?_⟩) fun budget₃ u ⟨hu, h₃⟩ => ?_
  · rw [h₂.roots] at h
    exact charges_foldlM (fun _ _ _ h => charge_eq_ok h) _ h
  · subst hu
    have happend := @rootsSize_append libraries u.pathSeparator
      (u.roots.take budget.roots) (u.roots.drop budget.roots)
    rw [List.take_append_drop] at happend
    refine steps_pure ⟨rfl, ⟨h₃.offset.trans h₂.offset, rfl, ?_, ?_, ?_, ?_⟩⟩
    · exact h₃.bytes.trans (h₂.bytes.trans h₁.bytes)
    · exact h₃.discovered.trans (h₂.discovered.trans h₁.discovered)
    · exact fun hle => h₃.within (h₂.within (h₁.within hle))
    · have hm₁ := h₁.metadata
      have hm₂ := h₂.metadata
      have hm₃ := h₃.metadata
      rw [List.length_drop] at hm₁
      dsimp only at hm₂ ⊢
      omega

/-- The charges for a child that has been added. -/
def addedSize (w : Writer) (id : String) (folder : Bool) (parent : Option String) : Nat :=
  (if folder then (Budget.bareRecord id (w.folders.getD id ⟨"", []⟩)).length else 0) +
    if parent.isSome then childSize id else 0

theorem walks_added (hoffset : budget.offset ≤ w.metadata.length) (id : String) (folder : Bool)
    (parent : Option String) :
    Walks w (budget.added libraries limits env id folder parent) fun budget' w' => w' = w ∧
      Observed libraries limits w (addedSize w id folder parent) budget budget' := by
  refine Steps.bind (walks_observe hoffset) fun budget₁ v ⟨hv, h₁⟩ => ?_
  subst hv
  refine steps_writer_bind ?_
  refine Steps.bind (Q := fun budget₂ u => u = v ∧ Observed libraries limits v
      (if folder then (Budget.bareRecord id (v.folders.getD id ⟨"", []⟩)).length else 0)
      budget budget₂) ?_ fun budget₂ v ⟨hv, h₂⟩ => ?_
  · refine steps_ite (fun hfolder => ?_) fun hfolder => ?_
    · rw [if_pos hfolder]
      refine steps_ofWriteResult trivial fun _ h => ⟨rfl, ?_⟩
      have hcharge := h₁.charge (fragment_eq_ok h)
      rwa [Nat.zero_add] at hcharge
    · rw [if_neg hfolder]
      exact steps_pure ⟨rfl, h₁⟩
  · subst hv
    unfold addedSize
    refine steps_ite (fun hparent => ?_) fun hparent => ?_
    · rw [if_pos hparent]
      exact steps_ofWriteResult trivial fun _ h => ⟨rfl, h₂.charge (charge_eq_ok h)⟩
    · rw [if_neg hparent]
      exact steps_pure ⟨rfl, h₂⟩

/-! ## What the budget covers -/

/-- The budget has charged at least what the finished container holds, with the issues of its
collection and the record that is reserved for it. -/
structure Covers (libraries : WriterLibraries) (limits : CollectionLimits)
    (issues : List CollectionIssue) (budget : Budget) (w : Writer) : Prop where
  offset : budget.offset = w.metadata.length
  roots : budget.roots = w.roots.length
  metadata : w.metadata.length + w.recordsSize libraries + reservedSize libraries +
    (issues.map (issueSize libraries)).sum ≤ budget.metadata
  metadataWithin : budget.metadata ≤ limits.reader.metadataBytes
  bytes : budget.bytes = (w.streams.map (·.size)).sum
  bytesWithin : budget.bytes ≤ limits.reader.verificationBytes
  entries : w.archiveEntries + 2 ≤ limits.reader.archiveEntries

/-- The number of members of another file, if there is one. -/
def Writer.fileEntries (w : Writer) : Option Nat → Nat
  | some size => (w.fileKind size).entries w.options size
  | none => 0

/-- A file that the budget takes. -/
theorem file_eq_ok {size : Option Nat} (h : budget.file limits w size = .ok budget') :
    w.archiveEntries + 2 + w.fileEntries size ≤ limits.reader.archiveEntries ∧
      budget.bytes + size.getD 0 ≤ limits.reader.verificationBytes ∧
      budget' = { budget with bytes := budget.bytes + size.getD 0 } := by
  simp only [Budget.file, bind_eq_ok, okOr_eq_ok, checkedAdd_eq_some, check_eq_ok, pure_eq_ok,
    Except.ok.injEq] at h
  obtain ⟨entries, hentries, bytes, ⟨_, rfl⟩, _, hle, _, hbytes, rfl⟩ := h
  refine ⟨?_, hbytes, rfl⟩
  simp only [Budget.expectedEntries, bind_eq_ok, okOr_eq_ok, checkedAdd_eq_some] at hentries
  obtain ⟨before, ⟨_, rfl⟩, hentries⟩ := hentries
  cases size with
  | none =>
    cases hentries
    exact hle
  | some size =>
    simp only [bind_eq_ok, okOr_eq_ok, checkedAdd_eq_some] at hentries
    obtain ⟨members, hmembers, _, rfl⟩ := hentries
    dsimp only [Writer.fileEntries, Writer.fileKind]
    by_cases hlarge : w.logicalZipThreshold < size
    · rw [if_pos hlarge, okOr_eq_ok] at hmembers
      rw [if_pos hlarge]
      have hcount := chunkedEntries_eq hmembers
      simp only [if_true, Nat.add_zero] at hcount
      dsimp only [Kind.entries]
      omega
    · rw [if_neg hlarge] at hmembers
      cases hmembers
      rw [if_neg hlarge]
      exact hle

theorem streams_eq_ok {streams : List AcquiredStream}
    (h : streams.foldlM (fun (budget : Budget) stream => do
      let bytes ← okOr (overflow "collection byte count") (checkedAdd budget.bytes stream.size)
      return { budget with bytes }) budget = .ok budget') :
    budget' = { budget with bytes := budget.bytes + (streams.map (·.size)).sum } := by
  induction streams generalizing budget with
  | nil =>
    cases h
    rfl
  | cons stream streams ih =>
    simp only [List.foldlM_cons, bind_eq_ok, okOr_eq_ok, checkedAdd_eq_some, pure_eq_ok,
      Except.ok.injEq] at h
    obtain ⟨next, ⟨bytes, ⟨_, rfl⟩, rfl⟩, h⟩ := h
    rw [ih h, List.map_cons, List.sum_cons, Nat.add_assoc]

theorem chargeFolder_eq_ok {entry : String × Folder}
    (h : budget.chargeFolder libraries limits entry = .ok budget') :
    Charges limits (recordSize entry) budget budget' := by
  rw [Budget.chargeFolder, bind_eq_ok] at h
  obtain ⟨next, hnext, h⟩ := h
  have hrecord : recordSize entry = _ := recordSize_eq entry.1 entry.2
  rw [hrecord]
  exact (fragment_eq_ok hnext).trans (charges_foldlM (fun _ _ _ h => charge_eq_ok h) _ h)

theorem walks_taskMetadata (report : CollectionReport) :
    Walks w (taskMetadata libraries env report) fun text w' => w' = w ∧ ∃ task : String,
      task.utf8ByteSize = 43 ∧ text.length =
        (utf8Bytes (taskHeader libraries task report.files report.bytes)).length + 3 +
          (report.issues.map (issueSize libraries)).sum := by
  refine Steps.bind attempts_identifier.walks fun task v ⟨hv, htask⟩ => ?_
  refine steps_pure ⟨hv, task, htask, ?_⟩
  have hissues : (report.issues.map (issueSize libraries)).sum = (report.issues.map fun issue =>
      (utf8Bytes (issueMetadata libraries issue)).length).sum := rfl
  have hend : (utf8Bytes " .\n").length = 3 := rfl
  rw [List.length_append, List.length_append, length_flatMap_sum, hissues, hend]
  omega

/-- The budget of a collection that starts. -/
theorem walks_new :
    Walks w (Budget.new libraries limits env) fun budget w' => w' = w ∧
      Covers libraries limits [] budget w ∧ budget.discovered = 0 := by
  refine Steps.bind (walks_observe (Nat.zero_le _)) fun budget₁ v ⟨hv, h₁⟩ => ?_
  subst hv
  refine steps_writer_bind ?_
  refine Steps.bind (Q := fun budget₂ u => u = v ∧
      Observed libraries limits v (foldersSize v.folders) {} budget₂)
    (steps_ofWriteResult trivial fun _ h => ⟨rfl, ?_⟩) fun budget₂ v ⟨hv, h₂⟩ => ?_
  · have hcharge := h₁.charge (charges_foldlM (fun _ _ _ h => chargeFolder_eq_ok h) _ h)
    rwa [Nat.zero_add] at hcharge
  subst hv
  refine Steps.bind (walks_taskMetadata _) fun reserved v' ⟨hv', task, htask, hreserved⟩ => ?_
  subst hv'
  refine Steps.bind (Q := fun budget₃ v => v = v' ∧
      Observed libraries limits v' (foldersSize v'.folders + reserved.length) {} budget₃)
    (steps_ofWriteResult trivial fun _ h => ⟨rfl, h₂.charge (fragment_eq_ok h)⟩)
    fun budget₃ v ⟨hv, h₃⟩ => ?_
  subst hv
  refine Steps.bind (Q := fun budget₄ v' => v' = v ∧
      budget₄ = { budget₃ with bytes := budget₃.bytes + (v.streams.map (·.size)).sum })
    (steps_ofWriteResult trivial fun _ h => ⟨rfl, streams_eq_ok h⟩) fun budget₄ v' ⟨hv', h₄⟩ => ?_
  subst hv'
  refine steps_ofWriteResult trivial fun budget₅ h => ?_
  obtain ⟨hentries, hbytes, h₅⟩ := file_eq_ok h
  have hzero : budget₃.bytes = 0 := h₃.bytes
  have hsum : budget₃.metadata = v'.metadata.length + rootsSize libraries v'.pathSeparator v'.roots +
      (foldersSize v'.folders + reserved.length) := by
    have hm := h₃.metadata
    simp only [List.take_zero, rootsSize, if_true, Nat.add_zero, Nat.zero_add] at hm ⊢
    exact hm
  have hreserved' : reserved.length = reservedSize libraries := by
    rw [hreserved, length_taskHeader htask]
    rfl
  subst h₄
  subst h₅
  refine ⟨rfl, ⟨h₃.offset, h₃.roots, ?_, h₃.within (Nat.zero_le _), ?_, hbytes, hentries⟩,
    h₃.discovered⟩
  · simp only [List.map_nil, List.sum_nil, Writer.recordsSize]
    omega
  · simp only [hzero, Option.getD_none, Nat.zero_add, Nat.add_zero]

end Observations

end EwfImage.Aff4.Writing

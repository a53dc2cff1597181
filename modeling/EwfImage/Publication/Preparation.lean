import EwfImage.Publication.Conclusion

/-!
# Preparation

While the journals are being filled the destinations are untouched, and every
operation that is no longer to come has left its record: the directories, the
identity, and for each destination a complete backup or a marker. A torn backup is
harmless because the operation that completes it is still to come. With nothing left
the journals are complete.

`Preparing` is the invariant over the operations that are left, and `Preparing.step` keeps it.
The main results are `Preparing.secured`, that the journals are complete in the end, and
`Preparing.torn`, that a crash in the middle of an operation leaves nothing that could be taken
for complete.
-/

namespace EwfImage.Publication

open Programs

variable {Path Content : Type}

/-- The staging writes among the operations that are left. -/
def remainingWrites (todo : List (FsOp Path Content)) : List (Nat × Path × Content) :=
  todo.filterMap fun
    | .stage set path content => some (set, path, content)
    | _ => none

section Predicates

variable [DecidableEq Path] (request : Request Path Content) (initial : Path → Option Content)

/-- What the journal of `set` records with the operations `todo` left. -/
structure PreparingJournal (set : Nat) (todo : List (FsOp Path Content))
    (journal : Journal Path Content) : Prop where
  directories : ∀ directory, .createDirectory set directory ∉ todo →
    directory ∈ journal.directories
  identified : .writeIdentity set request.identity.val ∉ todo →
    journal.identity = some request.identity.val
  backups : ∀ path content, (path, content) ∈ journal.backups →
    path ∈ request.destinations set ∧ (initial path).isSome ∧
      (.backup set path ∉ todo → initial path = some content)
  absent : ∀ path ∈ journal.absent, path ∈ request.destinations set ∧ initial path = none
  covered : ∀ path ∈ request.destinations set, .backup set path ∉ todo →
    path ∈ journal.backups.map Prod.fst ∨ path ∈ journal.absent
  valid : ∀ path ∈ journal.backups.map Prod.fst ++ journal.absent,
    request.policy.validTarget set path

/-- The state of a preparation with the operations `todo` left. -/
structure Preparing (todo : List (FsOp Path Content)) (disk : Disk Path Content) : Prop where
  suffix : todo <:+ request.program
  files : disk.files = initial
  created : ∀ set < request.sets, .createJournal set ∉ todo → (disk.journals set).isSome
  unused : ∀ set, request.sets ≤ set → disk.journals set = none
  primaryFirst : disk.journals 0 = none → ∀ set, disk.journals set = none
  staged : ∀ set path, stagedAfter (remainingWrites todo) set path
    ((disk.journals set).bind fun journal => journal.staged path) = request.stagedContent set path
  ready : ∀ primary, disk.journals 0 = some primary →
    (primary.ready = true ↔ .markReady ∉ todo) ∧ primary.committed = false ∧
      primary.rolledBack = false
  journals : ∀ set journal, disk.journals set = some journal →
    PreparingJournal request initial set todo journal

end Predicates

/-! ## The program -/

section Program

variable (request : Request Path Content)

/-- The operations behind the creation of the journals. -/
def Request.fillOps : List (FsOp Path Content) :=
  ((List.range request.sets).flatMap fun set =>
    Request.directories.map (.createDirectory set) ++
      [.writeIdentity set request.identity.val]) ++ request.stageOps ++
    (List.range request.sets).flatMap fun set =>
      (request.written set).map (.checkStaged set) ++ (request.destinations set).map (.backup set)

theorem program_eq : request.program =
    (List.range request.sets).map .createJournal ++ request.fillOps ++ [.markReady] := by
  simp [Request.program, Request.beginOps, Request.fillOps, Request.prepareOps,
    List.append_assoc]

theorem mem_fillOps {op : FsOp Path Content} : op ∈ request.fillOps ↔
    (∃ set < request.sets, (∃ directory ∈ Request.directories,
        .createDirectory set directory = op) ∨ op = .writeIdentity set request.identity.val) ∨
    (∃ set path content, (set, path, content) ∈ request.staging ∧ .stage set path content = op) ∨
    ∃ set < request.sets, (∃ path ∈ request.written set, .checkStaged set path = op) ∨
      ∃ path ∈ request.destinations set, .backup set path = op := by
  simp [Request.fillOps, Request.stageOps]

theorem createJournal_not_mem_fillOps (set : Nat) : .createJournal set ∉ request.fillOps := by
  rw [mem_fillOps]
  rintro (⟨_, _, ⟨_, _, h⟩ | h⟩ | ⟨_, _, _, _, h⟩ | ⟨_, _, ⟨_, _, h⟩ | ⟨_, _, h⟩⟩) <;> cases h

theorem markReady_not_mem : .markReady ∉
    (List.range request.sets).map FsOp.createJournal ++ request.fillOps := by
  simp only [List.mem_append, List.mem_map, mem_fillOps]
  rintro (⟨_, _, h⟩ | ⟨_, _, ⟨_, _, h⟩ | h⟩ | ⟨_, _, _, _, h⟩ | ⟨_, _, ⟨_, _, h⟩ | ⟨_, _, h⟩⟩) <;>
    cases h

theorem remainingWrites_program : remainingWrites request.program = request.staging := by
  have hquiet : ∀ ops : List (FsOp Path Content), (∀ op ∈ ops, ∀ set path content,
      op ≠ .stage set path content) → remainingWrites ops = [] := by
    intro ops hops
    refine List.filterMap_eq_nil_iff.mpr fun op hop => ?_
    split
    · exact absurd rfl (hops _ hop _ _ _)
    · rfl
  have hstage : remainingWrites request.stageOps = request.staging := by
    simp [remainingWrites, Request.stageOps, List.filterMap_map]
  have happend : ∀ xs ys : List (FsOp Path Content),
      remainingWrites (xs ++ ys) = remainingWrites xs ++ remainingWrites ys :=
    fun xs ys => List.filterMap_append
  rw [Request.program, happend, happend, hstage, hquiet request.beginOps, hquiet request.prepareOps]
  · simp
  · intro op hop set path content heq
    subst heq
    simp [Request.prepareOps] at hop
  · intro op hop set path content heq
    subst heq
    simp [Request.beginOps] at hop

/-- While a journal is created, everything behind the creations is still to come. -/
theorem fillOps_suffix {set : Nat} {rest : List (FsOp Path Content)}
    (h : .createJournal set :: rest <:+ request.program) :
    request.fillOps ++ [.markReady] <:+ rest := by
  rw [program_eq, List.append_assoc] at h
  refine suffix_of_cons_suffix_append h ?_
  simp [createJournal_not_mem_fillOps]

/-- The first operation creates the primary journal, and no other one does. -/
theorem createJournal_zero_not_mem {set : Nat} {rest : List (FsOp Path Content)}
    (h : .createJournal set :: rest <:+ request.program) (hset : set ≠ 0) :
    .createJournal 0 ∉ rest := by
  obtain ⟨count, hcount⟩ := Nat.exists_eq_succ_of_ne_zero (Nat.pos_iff_ne_zero.mp request.sets_pos)
  have htail : request.program = .createJournal 0 ::
      (((List.range count).map Nat.succ).map .createJournal ++ request.fillOps ++ [.markReady]) := by
    rw [program_eq, hcount, Nat.succ_eq_add_one, List.range_succ_eq_map]
    simp
  have hnot : .createJournal 0 ∉
      ((List.range count).map Nat.succ).map .createJournal ++ request.fillOps ++
        [(.markReady : FsOp Path Content)] := by
    simp [createJournal_not_mem_fillOps]
  rw [htail] at h
  intro hmem
  rcases List.suffix_cons_iff.mp h with heq | hsuffix
  · have hhead := (List.cons.inj heq).1
    cases hhead
    exact hset rfl
  · exact hnot (hsuffix.subset (List.mem_cons_of_mem _ hmem))

end Program

/-! ## One operation -/

variable [DecidableEq Path] {request : Request Path Content} {initial : Path → Option Content}
  {disk disk' : Disk Path Content} {op : FsOp Path Content} {rest todo : List (FsOp Path Content)}

omit [DecidableEq Path] in
/-- An operation about something else takes nothing from the record of a journal. -/
theorem PreparingJournal.tail {set : Nat} {journal : Journal Path Content}
    (h : PreparingJournal request initial set (op :: rest) journal)
    (hdirectory : ∀ directory, op ≠ .createDirectory set directory)
    (hidentity : op ≠ .writeIdentity set request.identity.val)
    (hbackup : ∀ path, op ≠ .backup set path) :
    PreparingJournal request initial set rest journal := by
  have hkeep : ∀ x : FsOp Path Content, op ≠ x → x ∉ rest → x ∉ op :: rest := by
    intro x hne hx hmem
    rcases List.mem_cons.mp hmem with heq | hmem
    · exact hne heq.symm
    · exact hx hmem
  refine ⟨fun directory hd => h.directories directory (hkeep _ (hdirectory _) hd),
    fun hi => h.identified (hkeep _ hidentity hi), fun path content hin => ?_, h.absent,
    fun path hpath hb => h.covered path hpath (hkeep _ (hbackup _) hb), h.valid⟩
  obtain ⟨hdest, hexists, hcontent⟩ := h.backups path content hin
  exact ⟨hdest, hexists, fun hb => hcontent (hkeep _ (hbackup _) hb)⟩

/-- The journal of one set changes, the rest of the disk does not. -/
theorem Preparing.change {todo' : List (FsOp Path Content)} {set : Nat}
    {journal journal' : Journal Path Content} (h : Preparing request initial todo disk)
    (hjournal : disk.journals set = some journal) (hsuffix : todo' <:+ request.program)
    (hcreate : ∀ other, .createJournal other ∉ todo' → .createJournal other ∉ todo)
    (hmark : (.markReady : FsOp Path Content) ∈ todo' ↔ .markReady ∈ todo)
    (hstagedOther : ∀ other path now, other ≠ set → stagedAfter (remainingWrites todo') other path now =
      stagedAfter (remainingWrites todo) other path now)
    (hstaged : ∀ path, stagedAfter (remainingWrites todo') set path (journal'.staged path) =
      stagedAfter (remainingWrites todo) set path (journal.staged path))
    (hflags : journal'.ready = journal.ready ∧ journal'.committed = journal.committed ∧
      journal'.rolledBack = journal.rolledBack)
    (hother : ∀ other found, other ≠ set → PreparingJournal request initial other todo found →
      PreparingJournal request initial other todo' found)
    (hself : PreparingJournal request initial set todo' journal') :
    Preparing request initial todo' (disk.setJournal set (some journal')) := by
  refine ⟨hsuffix, h.files, ?_, ?_, ?_, ?_, ?_, ?_⟩
  · intro other hlt hnot
    by_cases heq : other = set
    · rw [heq, setJournal_journals_self]
      rfl
    · rw [setJournal_journals_of_ne _ heq]
      exact h.created other hlt (hcreate other hnot)
  · intro other hge
    have hne : other ≠ set := by
      rintro rfl
      rw [h.unused other hge] at hjournal
      cases hjournal
    rw [setJournal_journals_of_ne _ hne]
    exact h.unused other hge
  · intro hnone
    by_cases h0 : 0 = set
    · subst h0
      rw [setJournal_journals_self] at hnone
      cases hnone
    · rw [setJournal_journals_of_ne _ h0] at hnone
      rw [h.primaryFirst hnone set] at hjournal
      cases hjournal
  · intro other path
    by_cases heq : other = set
    · subst heq
      have hbefore := h.staged other path
      rw [hjournal] at hbefore
      rw [setJournal_journals_self]
      exact (hstaged path).trans hbefore
    · rw [setJournal_journals_of_ne _ heq, hstagedOther other path _ heq]
      exact h.staged other path
  · intro primary hprimary
    rw [not_congr hmark]
    rcases setJournal_journals_cases hprimary with ⟨rfl, heq⟩ | ⟨_, hold⟩
    · cases heq
      obtain ⟨hr, hc, hb⟩ := hflags
      rw [hr, hc, hb]
      exact h.ready journal hjournal
    · exact h.ready primary hold
  · intro other found hfound
    rcases setJournal_journals_cases hfound with ⟨rfl, heq⟩ | ⟨hne, hold⟩
    · cases heq
      exact hself
    · exact hother other found hne (h.journals other found hold)

omit [DecidableEq Path] in
theorem mem_putBackup_keys [DecidableEq Path] {journal : Journal Path Content} {path other : Path}
    {content : Content} : other ∈ (journal.putBackup path content).backups.map Prod.fst ↔
      other = path ∨ other ∈ journal.backups.map Prod.fst := by
  simp only [Journal.putBackup, List.map_cons, List.mem_cons, List.mem_map, List.mem_filter,
    decide_eq_true_eq]
  constructor
  · rintro (h | ⟨entry, ⟨hentry, _⟩, h⟩)
    · exact .inl h
    · exact .inr ⟨entry, hentry, h⟩
  · rintro (h | ⟨entry, hentry, h⟩)
    · exact .inl h
    · by_cases hpath : other = path
      · exact .inl hpath
      · exact .inr ⟨entry, ⟨hentry, by rw [h]; exact hpath⟩, h⟩

/-- A backup of `path`, complete or torn, while its operation may still be to come. -/
theorem PreparingJournal.putBackup {set : Nat} {journal : Journal Path Content} {path : Path}
    {content : Content} (h : PreparingJournal request initial set todo journal)
    (hpath : path ∈ request.destinations set) (hvalid : request.policy.validTarget set path)
    (hexists : (initial path).isSome)
    (hcontent : .backup set path ∉ todo → initial path = some content) :
    PreparingJournal request initial set todo (journal.putBackup path content) := by
  refine ⟨h.directories, h.identified, ?_, h.absent, ?_, ?_⟩
  · intro other found hin
    simp only [Journal.putBackup, List.mem_cons, List.mem_filter, Prod.mk.injEq] at hin
    rcases hin with ⟨rfl, rfl⟩ | ⟨hin, _⟩
    · exact ⟨hpath, hexists, hcontent⟩
    · exact h.backups other found hin
  · intro other hother hdone
    rw [mem_putBackup_keys]
    rcases h.covered other hother hdone with hkey | habsent
    · exact .inl (.inr hkey)
    · exact .inr habsent
  · intro other hother
    rw [List.mem_append, mem_putBackup_keys] at hother
    rcases hother with (rfl | hkey) | habsent
    · exact hvalid
    · exact h.valid other (List.mem_append_left _ hkey)
    · exact h.valid other (List.mem_append_right _ habsent)

/-- An operation on the journal of `set` that neither stages nor creates nor marks. -/
theorem Preparing.record {set : Nat} {journal journal' : Journal Path Content}
    (h : Preparing request initial (op :: rest) disk) (hjournal : disk.journals set = some journal)
    (hwrites : remainingWrites (op :: rest) = remainingWrites rest)
    (hcreate : ∀ other, op ≠ .createJournal other) (hmark : op ≠ .markReady)
    (hstaged : journal'.staged = journal.staged)
    (hflags : journal'.ready = journal.ready ∧ journal'.committed = journal.committed ∧
      journal'.rolledBack = journal.rolledBack)
    (hother : ∀ other, other ≠ set → (∀ directory, op ≠ .createDirectory other directory) ∧
      op ≠ .writeIdentity other request.identity.val ∧ ∀ path, op ≠ .backup other path)
    (hself : PreparingJournal request initial set rest journal') :
    Preparing request initial rest (disk.setJournal set (some journal')) := by
  refine h.change hjournal (tail_suffix h.suffix) ?_ ?_ ?_ ?_ hflags ?_ hself
  · intro other hrest hmem
    rcases List.mem_cons.mp hmem with heq | hmem
    · exact hcreate other heq.symm
    · exact hrest hmem
  · rw [List.mem_cons]
    exact ⟨.inr, fun hmem => hmem.resolve_left hmark.symm⟩
  · intro other path now _
    rw [hwrites]
  · intro path
    rw [hwrites, hstaged]
  · intro other found hne hfound
    obtain ⟨hdirectory, hidentity, hbackup⟩ := hother other hne
    exact hfound.tail hdirectory hidentity hbackup

theorem Preparing.createJournal {set : Nat} (h : Preparing request initial (.createJournal set :: rest) disk)
    (hset : set < request.sets) (hnone : disk.journals set = none) :
    Preparing request initial rest (disk.setJournal set (some {})) := by
  have hbehind := fillOps_suffix request h.suffix
  have hfill : ∀ op ∈ request.fillOps, op ∈ rest :=
    fun op hop => hbehind.subset (List.mem_append_left _ hop)
  have hready : (.markReady : FsOp Path Content) ∈ rest := hbehind.subset (by simp)
  have hcreated : ∀ other, other ≠ set → .createJournal other ∉ rest →
      .createJournal other ∉ FsOp.createJournal set :: rest := by
    intro other hne hrest hmem
    rcases List.mem_cons.mp hmem with heq | hmem
    · cases heq
      exact hne rfl
    · exact hrest hmem
  refine ⟨tail_suffix h.suffix, h.files, ?_, ?_, ?_, ?_, ?_, ?_⟩
  · intro other hlt hrest
    by_cases heq : other = set
    · rw [heq, setJournal_journals_self]
      rfl
    · rw [setJournal_journals_of_ne _ heq]
      exact h.created other hlt (hcreated other heq hrest)
  · intro other hge
    rw [setJournal_journals_of_ne _ (by omega)]
    exact h.unused other hge
  · intro hprimary
    by_cases h0 : 0 = set
    · rw [← h0, setJournal_journals_self] at hprimary
      cases hprimary
    · -- The primary journal is created first, so it already exists.
      rw [setJournal_journals_of_ne _ h0] at hprimary
      have hzero := createJournal_zero_not_mem request h.suffix (Ne.symm h0)
      have hsome := h.created 0 request.sets_pos (hcreated 0 h0 hzero)
      rw [hprimary] at hsome
      cases hsome
  · intro other path
    have hbefore := h.staged other path
    by_cases heq : other = set
    · subst heq
      rw [hnone] at hbefore
      rw [setJournal_journals_self]
      exact hbefore
    · rw [setJournal_journals_of_ne _ heq]
      exact hbefore
  · intro primary hprimary
    rcases setJournal_journals_cases hprimary with ⟨_, heq⟩ | ⟨_, hold⟩
    · cases heq
      exact ⟨by simp [hready], rfl, rfl⟩
    · have hmem : (.markReady : FsOp Path Content) ∈ FsOp.createJournal set :: rest :=
        List.mem_cons_of_mem _ hready
      obtain ⟨hiff, hflags⟩ := h.ready primary hold
      exact ⟨by simpa [hready, hmem] using hiff, hflags⟩
  · intro other found hfound
    rcases setJournal_journals_cases hfound with ⟨rfl, heq⟩ | ⟨hne, hold⟩
    · cases heq
      refine ⟨?_, ?_, ?_, ?_, ?_, ?_⟩
      · intro directory hnot
        have hin : directory ∈ Request.directories := by cases directory <;> decide
        exact absurd (hfill _ ((mem_fillOps request).mpr
          (.inl ⟨other, hset, .inl ⟨directory, hin, rfl⟩⟩))) hnot
      · intro hnot
        exact absurd (hfill _ ((mem_fillOps request).mpr (.inl ⟨other, hset, .inr rfl⟩))) hnot
      · intro path content hin
        cases hin
      · intro path hin
        cases hin
      · intro path hpath hnot
        exact absurd (hfill _ ((mem_fillOps request).mpr
          (.inr (.inr ⟨other, hset, .inr ⟨path, hpath, rfl⟩⟩)))) hnot
      · intro path hin
        cases hin
    · exact (h.journals other found hold).tail (by simp) (by simp) (by simp)

theorem Preparing.stage {set : Nat} {path : Path} {content : Content}
    {journal : Journal Path Content}
    (h : Preparing request initial (.stage set path content :: rest) disk)
    (hjournal : disk.journals set = some journal) :
    Preparing request initial rest (disk.setJournal set
      (some { journal with staged := assign journal.staged path (some content) })) := by
  refine h.change hjournal (tail_suffix h.suffix) ?_ ?_ ?_ ?_ ⟨rfl, rfl, rfl⟩ ?_ ?_
  · intro other hrest
    simpa using hrest
  · simp
  · intro other found now hne
    have hhead : ¬ (set = other ∧ path = found) := fun heq => hne heq.1.symm
    simp [remainingWrites, stagedAfter, hhead]
  · intro found
    by_cases heq : path = found
    · simp [remainingWrites, stagedAfter, heq]
    · simp [remainingWrites, stagedAfter, heq, assign_of_ne _ _ (Ne.symm heq)]
  · intro other found _ hfound
    exact hfound.tail (by simp) (by simp) (by simp)
  · have hkept := (h.journals set journal hjournal).tail (by simp) (by simp) (by simp)
    exact ⟨hkept.directories, hkept.identified, hkept.backups, hkept.absent, hkept.covered,
      hkept.valid⟩

theorem Preparing.backup {set : Nat} {path : Path}
    (h : Preparing request initial (.backup set path :: rest) disk)
    (hpath : path ∈ request.destinations set)
    (happly : (FsOp.backup set path).apply request.policy disk = some disk') :
    Preparing request initial rest disk' := by
  obtain ⟨journal, journal', hjournal, hchange, rfl⟩ := inJournal_eq_some.mp happly
  have hbefore := h.journals set journal hjournal
  have hvalid : request.policy.validTarget set path := by
    by_contra hnot
    rw [if_neg hnot] at hchange
    cases hchange
  rw [if_pos hvalid, h.files] at hchange
  have hkeep : ∀ other, other ≠ path → .backup set other ∉ rest →
      .backup set other ∉ FsOp.backup set path :: rest := by
    intro other hne hrest hmem
    rcases List.mem_cons.mp hmem with heq | hmem
    · cases heq
      exact hne rfl
    · exact hrest hmem
  have hother : ∀ other, other ≠ set →
      (∀ directory, (FsOp.backup set path : FsOp Path Content) ≠ .createDirectory other directory) ∧
      (FsOp.backup set path : FsOp Path Content) ≠ .writeIdentity other request.identity.val ∧
      ∀ found, (FsOp.backup set path : FsOp Path Content) ≠ .backup other found := by
    intro other hne
    refine ⟨by simp, by simp, fun found heq => ?_⟩
    cases heq
    exact hne rfl
  cases hfile : initial path with
  | some content =>
    rw [hfile] at hchange
    simp only [Option.ite_none_right_eq_some, Option.some.injEq] at hchange
    obtain ⟨-, rfl⟩ := hchange
    refine h.record hjournal rfl (by simp) (by simp) rfl ⟨rfl, rfl, rfl⟩ hother ?_
    have hput : PreparingJournal request initial set (.backup set path :: rest)
        (journal.putBackup path content) :=
      hbefore.putBackup hpath hvalid (by simp [hfile]) fun _ => hfile
    refine ⟨fun directory hd => hput.directories directory (by simpa using hd),
      fun hi => hput.identified (by simpa using hi), ?_, hput.absent, ?_, hput.valid⟩
    · intro other found hin
      obtain ⟨hdest, hexists, hcontent⟩ := hput.backups other found hin
      refine ⟨hdest, hexists, fun hrest => ?_⟩
      by_cases heq : other = path
      · subst heq
        simp only [Journal.putBackup, List.mem_cons, List.mem_filter, Prod.mk.injEq] at hin
        rcases hin with ⟨_, rfl⟩ | ⟨_, hne⟩
        · exact hfile
        · simp at hne
      · exact hcontent (hkeep other heq hrest)
    · intro other hdest hrest
      by_cases heq : other = path
      · exact .inl (mem_putBackup_keys.mpr (.inl heq))
      · exact hput.covered other hdest (hkeep other heq hrest)
  | none =>
    rw [hfile] at hchange
    cases hchange
    refine h.record hjournal rfl (by simp) (by simp) rfl ⟨rfl, rfl, rfl⟩ hother ?_
    refine ⟨fun directory hd => hbefore.directories directory (by simpa using hd),
      fun hi => hbefore.identified (by simpa using hi), ?_, ?_, ?_, ?_⟩
    · intro other found hin
      obtain ⟨hdest, hexists, hcontent⟩ := hbefore.backups other found hin
      refine ⟨hdest, hexists, fun hrest => hcontent (hkeep other ?_ hrest)⟩
      rintro rfl
      rw [hfile] at hexists
      cases hexists
    · intro other hin
      rcases List.mem_cons.mp hin with rfl | hin
      · exact ⟨hpath, hfile⟩
      · exact hbefore.absent other hin
    · intro other hdest hrest
      by_cases heq : other = path
      · exact .inr (heq ▸ List.mem_cons_self)
      · rcases hbefore.covered other hdest (hkeep other heq hrest) with hkey | habsent
        · exact .inl hkey
        · exact .inr (List.mem_cons_of_mem _ habsent)
    · intro other hin
      rcases List.mem_append.mp hin with hkey | habsent
      · exact hbefore.valid other (List.mem_append_left _ hkey)
      · rcases List.mem_cons.mp habsent with rfl | habsent
        · exact hvalid
        · exact hbefore.valid other (List.mem_append_right _ habsent)

theorem Preparing.createDirectory {set : Nat} {directory : Directory}
    {journal : Journal Path Content}
    (h : Preparing request initial (.createDirectory set directory :: rest) disk)
    (hjournal : disk.journals set = some journal) :
    Preparing request initial rest (disk.setJournal set
      (some { journal with directories := directory :: journal.directories })) := by
  have hbefore := h.journals set journal hjournal
  refine h.record hjournal rfl (by simp) (by simp) rfl ⟨rfl, rfl, rfl⟩ ?_ ?_
  · intro other hne
    refine ⟨fun found heq => ?_, by simp, by simp⟩
    cases heq
    exact hne rfl
  · refine ⟨fun found hrest => ?_, fun hrest => hbefore.identified (by simpa using hrest), ?_,
      hbefore.absent, fun path hpath hrest => hbefore.covered path hpath (by simpa using hrest),
      hbefore.valid⟩
    · by_cases heq : found = directory
      · rw [heq]
        exact List.mem_cons_self
      · exact List.mem_cons_of_mem _ (hbefore.directories found (by simpa [heq] using hrest))
    · intro path content hin
      obtain ⟨hdest, hexists, hcontent⟩ := hbefore.backups path content hin
      exact ⟨hdest, hexists, fun hrest => hcontent (by simpa using hrest)⟩

omit [DecidableEq Path] in
/-- The identity, complete or torn, while its operation may still be to come. -/
theorem PreparingJournal.putIdentity {set : Nat} {journal : Journal Path Content} {found : Bytes}
    (h : PreparingJournal request initial set todo journal)
    (hfound : .writeIdentity set request.identity.val ∉ todo → found = request.identity.val) :
    PreparingJournal request initial set todo { journal with identity := some found } :=
  ⟨h.directories, fun hi => congrArg some (hfound hi), h.backups, h.absent, h.covered, h.valid⟩

theorem Preparing.writeIdentity {set : Nat} {journal : Journal Path Content}
    (h : Preparing request initial (.writeIdentity set request.identity.val :: rest) disk)
    (hjournal : disk.journals set = some journal) :
    Preparing request initial rest (disk.setJournal set
      (some { journal with identity := some request.identity.val })) := by
  have hput := (h.journals set journal hjournal).putIdentity fun _ => rfl
  refine h.record hjournal rfl (by simp) (by simp) rfl ⟨rfl, rfl, rfl⟩ ?_ ?_
  · intro other hne
    refine ⟨by simp, fun heq => ?_, by simp⟩
    cases heq
    exact hne rfl
  · refine ⟨fun found hrest => hput.directories found (by simpa using hrest), fun _ => rfl, ?_,
      hput.absent, fun path hpath hrest => hput.covered path hpath (by simpa using hrest),
      hput.valid⟩
    intro path content hin
    obtain ⟨hdest, hexists, hcontent⟩ := hput.backups path content hin
    exact ⟨hdest, hexists, fun hrest => hcontent (by simpa using hrest)⟩

theorem Preparing.checkStaged {set : Nat} {path : Path} {journal : Journal Path Content}
    (h : Preparing request initial (.checkStaged set path :: rest) disk)
    (hjournal : disk.journals set = some journal) :
    Preparing request initial rest (disk.setJournal set (some journal)) := by
  refine h.record hjournal rfl (by simp) (by simp) rfl ⟨rfl, rfl, rfl⟩ ?_ ?_
  · intro other _
    exact ⟨by simp, by simp, by simp⟩
  · exact (h.journals set journal hjournal).tail (by simp) (by simp) (by simp)

/-- The mark is the last operation. -/
theorem Preparing.markReady {journal : Journal Path Content}
    (h : Preparing request initial (.markReady :: rest) disk)
    (hjournal : disk.journals 0 = some journal) :
    Preparing request initial rest (disk.setJournal 0 (some { journal with ready := true })) := by
  have hrest : rest = [] := by
    have hsuffix := h.suffix
    rw [program_eq] at hsuffix
    exact eq_nil_of_cons_suffix_concat hsuffix (markReady_not_mem request)
  subst hrest
  have hkept : ∀ set found, PreparingJournal request initial set [.markReady] found →
      PreparingJournal request initial set [] found :=
    fun set found hfound => hfound.tail (by simp) (by simp) (by simp)
  refine ⟨tail_suffix h.suffix, h.files, ?_, ?_, ?_, ?_, ?_, ?_⟩
  · intro set hset _
    by_cases heq : set = 0
    · rw [heq, setJournal_journals_self]
      rfl
    · rw [setJournal_journals_of_ne _ heq]
      exact h.created set hset (by simp)
  · intro set hset
    have hpos := request.sets_pos
    rw [setJournal_journals_of_ne _ (by omega)]
    exact h.unused set hset
  · intro hnone
    rw [setJournal_journals_self] at hnone
    cases hnone
  · intro set path
    have hbefore := h.staged set path
    by_cases heq : set = 0
    · subst heq
      rw [hjournal] at hbefore
      rw [setJournal_journals_self]
      exact hbefore
    · rw [setJournal_journals_of_ne _ heq]
      exact hbefore
  · intro primary hprimary
    rw [setJournal_journals_self] at hprimary
    cases hprimary
    exact ⟨by simp, (h.ready journal hjournal).2⟩
  · intro set found hfound
    rcases setJournal_journals_cases hfound with ⟨rfl, heq⟩ | ⟨_, hold⟩
    · cases heq
      have hbefore := hkept 0 journal (h.journals 0 journal hjournal)
      exact ⟨hbefore.directories, hbefore.identified, hbefore.backups, hbefore.absent,
        hbefore.covered, hbefore.valid⟩
    · exact hkept set found (h.journals set found hold)

theorem Preparing.step (h : Preparing request initial (op :: rest) disk)
    (happly : op.apply request.policy disk = some disk') : Preparing request initial rest disk' := by
  have hop : op ∈ request.program := h.suffix.subset List.mem_cons_self
  rw [program_eq, List.mem_append, List.mem_append, List.mem_map, mem_fillOps] at hop
  rcases hop with (⟨set, hset, rfl⟩ | hfill) | hmark
  · have hset : set < request.sets := List.mem_range.mp hset
    simp only [FsOp.apply] at happly
    split at happly
    · rename_i hnone
      cases happly
      exact h.createJournal hset hnone
    · cases happly
  · rcases hfill with ⟨set, _, ⟨directory, _, rfl⟩ | rfl⟩ | ⟨set, path, content, _, rfl⟩ |
      ⟨set, _, ⟨path, _, rfl⟩ | ⟨path, hpath, rfl⟩⟩
    · obtain ⟨journal, _, hjournal, hchange, rfl⟩ := inJournal_eq_some.mp happly
      cases hchange
      exact h.createDirectory hjournal
    · obtain ⟨journal, _, hjournal, hchange, rfl⟩ := inJournal_eq_some.mp happly
      cases hchange
      exact h.writeIdentity hjournal
    · obtain ⟨journal, _, hjournal, hchange, rfl⟩ := inJournal_eq_some.mp happly
      cases hchange
      exact h.stage hjournal
    · obtain ⟨journal, _, hjournal, hchange, rfl⟩ := inJournal_eq_some.mp happly
      simp only [Option.ite_none_right_eq_some, Option.some.injEq] at hchange
      obtain ⟨-, rfl⟩ := hchange
      exact h.checkStaged hjournal
    · exact h.backup hpath happly
  · cases List.mem_singleton.mp hmark
    obtain ⟨journal, _, hjournal, hchange, rfl⟩ := inJournal_eq_some.mp happly
    cases hchange
    exact h.markReady hjournal

/-- A write that is cut short only touches what its operation will write again. -/
theorem Preparing.torn (h : Preparing request initial (op :: rest) disk)
    (htorn : Torn request.policy disk op disk') : Preparing request initial (op :: rest) disk' := by
  have hop : op ∈ request.program := h.suffix.subset List.mem_cons_self
  rw [program_eq, List.mem_append, List.mem_append, List.mem_map, mem_fillOps] at hop
  cases htorn with
  | @writeIdentity set identity journal part hjournal =>
    have hidentity : identity = request.identity.val := by
      simp at hop
      exact hop.2
    refine h.change hjournal h.suffix (fun _ => id) .rfl (fun _ _ _ _ => rfl) (fun _ => rfl)
      ⟨rfl, rfl, rfl⟩ (fun _ _ _ => id) ?_
    exact (h.journals set journal hjournal).putIdentity fun hnot =>
      absurd (hidentity ▸ List.mem_cons_self) hnot
  | @backup set path journal part hjournal hfile hvalid =>
    have hpath : path ∈ request.destinations set := by
      simp only [reduceCtorEq, and_false, exists_false, List.mem_cons, List.not_mem_nil,
        FsOp.backup.injEq, or_self, false_or, or_false] at hop
      obtain ⟨found, _, _, hin, rfl, rfl⟩ := hop
      exact hin
    rw [h.files] at hfile
    refine h.change hjournal h.suffix (fun _ => id) .rfl (fun _ _ _ _ => rfl) (fun _ => rfl)
      ⟨rfl, rfl, rfl⟩ (fun _ _ _ => id) ?_
    exact (h.journals set journal hjournal).putBackup hpath hvalid hfile fun hnot =>
      absurd List.mem_cons_self hnot
  | copyRestore => simp at hop

/-! ## The two ends -/

theorem Preparing.start (request : Request Path Content) (initial : Path → Option Content) :
    Preparing request initial request.program (request.start initial).disk := by
  refine ⟨List.suffix_refl _, rfl, ?_, fun _ _ => rfl, fun _ _ => rfl, ?_, ?_, ?_⟩
  · intro set hset hnot
    refine absurd ?_ hnot
    rw [program_eq]
    exact List.mem_append_left _ (List.mem_append_left _
      (List.mem_map_of_mem (List.mem_range.mpr hset)))
  · intro set path
    rw [remainingWrites_program]
    rfl
  · intro primary hprimary
    cases hprimary
  · intro set journal hjournal
    cases hjournal

/-- With nothing left the journals are complete. -/
theorem Preparing.secured (h : Preparing request initial [] disk) :
    Secured request initial disk := by
  refine ⟨?_, ?_, h.unused, ?_⟩
  · obtain ⟨primary, hprimary⟩ := Option.isSome_iff_exists.mp
      (h.created 0 request.sets_pos (by simp))
    obtain ⟨hready, hflags⟩ := h.ready primary hprimary
    exact ⟨primary, hprimary, hready.mpr (by simp), hflags⟩
  · intro set hset
    obtain ⟨journal, hjournal⟩ := Option.isSome_iff_exists.mp (h.created set hset (by simp))
    have hrecord := h.journals set journal hjournal
    refine ⟨journal, hjournal, fun directory => hrecord.directories directory (by simp),
      hrecord.identified (by simp), ?_, hrecord.absent,
      fun path hpath => hrecord.covered path hpath (by simp), hrecord.valid⟩
    intro path content hin
    obtain ⟨hdest, -, hcontent⟩ := hrecord.backups path content hin
    exact ⟨hdest, hcontent (by simp)⟩
  · intro path _
    rw [h.files]

/-- With an operation left the journals are not marked ready. -/
theorem Preparing.not_ready (h : Preparing request initial (op :: rest) disk) :
    ∀ primary, disk.journals 0 = some primary → primary.ready = false := by
  have hmark : (.markReady : FsOp Path Content) ∈ op :: rest := by
    have hsuffix := h.suffix
    rw [program_eq] at hsuffix
    exact last_mem_of_suffix_concat hsuffix (List.cons_ne_nil _ _)
  intro primary hprimary
  by_contra hnot
  exact (h.ready primary hprimary).1.mp (by simpa using hnot) hmark

theorem Preparing.settled (h : Preparing request initial (op :: rest) disk) :
    Settled request initial false disk := by
  refine ⟨?_, h.primaryFirst, h.unused,
    fun primary hprimary => .inr (.inr (h.not_ready primary hprimary)),
    fun _ _ _ => .inr h.not_ready⟩
  simpa [Outcome] using h.files

end EwfImage.Publication

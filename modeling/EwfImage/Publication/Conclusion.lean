import EwfImage.Publication.Outcome

/-!
# The two endings of a publication

A publication ends by a rollback or by retiring its journals. `Rolling` describes a
rollback by the restorations that are left: every destination already holds its old
content or is still among them. `Cleaning` describes the retirement by the number of
sets whose journals are left. The next operation of either always succeeds, so a
conclusion that is not interrupted reaches the outcome.

The main results are `Rolling.step`, `Cleaning.step` and `Concluding.execute`. A conclusion that
is cut short by another crash leaves a disk of the same kind, so a recovery may be interrupted
any number of times.
-/

namespace EwfImage.Publication

open Programs

variable {Path Content : Type} [DecidableEq Path]

/-- One destination that a rollback has still to restore. -/
inductive Restoration (Path : Type)
  | existing (set : Nat) (path : Path)
  | missing (set : Nat) (path : Path)

def Restoration.path : Restoration Path → Path
  | .existing _ path => path
  | .missing _ path => path

def Restoration.ops : Restoration Path → List (FsOp Path Content)
  | .existing set path => [.copyRestore set path, .restore set path]
  | .missing set path => [.removeInstalled set path]

section Predicates

variable (request : Request Path Content) (initial : Path → Option Content)

/-- The restoration puts back what the destination held. -/
def Restoration.Valid : Restoration Path → Prop
  | .existing set path => set < request.sets ∧ path ∈ request.destinations set ∧
      (initial path).isSome
  | .missing _ path => initial path = none

/-- What is left of a rollback: a rename whose copy is complete, then whole restorations. -/
inductive Remaining (disk : Disk Path Content) : List (FsOp Path Content) → List Path → Prop
  | whole (items : List (Restoration Path)) (hvalid : ∀ item ∈ items, item.Valid request initial) :
      Remaining disk (items.flatMap Restoration.ops) (items.map Restoration.path)
  | copied {set : Nat} {path : Path} {journal : Journal Path Content}
      (items : List (Restoration Path)) (hvalid : ∀ item ∈ items, item.Valid request initial)
      (hset : set < request.sets) (hpath : path ∈ request.destinations set)
      (hjournal : disk.journals set = some journal)
      (hcontent : (initial path).isSome ∧ journal.restored path = initial path) :
      Remaining disk (.restore set path :: items.flatMap Restoration.ops)
        (path :: items.map Restoration.path)

/-- The state of a rollback with the operations `todo` left. -/
structure Rolling (todo : List (FsOp Path Content)) (disk : Disk Path Content) : Prop where
  secured : Secured request initial disk
  remaining : ∃ ops paths, Remaining request initial disk ops paths ∧
    todo = ops ++ .markRolledBack :: cleanupOps request.sets ∧
    ∀ set < request.sets, ∀ path ∈ request.destinations set,
      disk.files path = initial path ∨ path ∈ paths

/-- The state of a cleanup with the operations `todo` left. -/
structure Cleaning (committed : Bool) (todo : List (FsOp Path Content)) (disk : Disk Path Content) :
    Prop where
  settled : Settled request initial committed disk
  remaining : ∃ count ≤ request.sets, todo = cleanupOps count ∧
    ∀ set, count ≤ set → disk.journals set = none

/-- A publication or a recovery that has decided how it ends. -/
def Concluding (committed : Bool) (todo : List (FsOp Path Content)) (disk : Disk Path Content) :
    Prop :=
  (committed = false ∧ Rolling request initial todo disk) ∨
    Cleaning request initial committed todo disk

end Predicates

variable {request : Request Path Content} {initial : Path → Option Content}
  {disk disk' : Disk Path Content} {committed : Bool}

/-! ## Changes that keep the journals complete -/

/-- A journal that differs only in the staged and the restored files. -/
def SameRecord (journal journal' : Journal Path Content) : Prop :=
  journal'.directories = journal.directories ∧ journal'.identity = journal.identity ∧
    journal'.backups = journal.backups ∧ journal'.absent = journal.absent ∧
    journal'.ready = journal.ready ∧ journal'.committed = journal.committed ∧
    journal'.rolledBack = journal.rolledBack

omit [DecidableEq Path] in
theorem Saved.of_sameRecord {set : Nat} {journal journal' : Journal Path Content}
    (h : Saved request initial set journal) (hsame : SameRecord journal journal') :
    Saved request initial set journal' := by
  obtain ⟨hdirectories, hidentity, hbackups, habsent, -⟩ := hsame
  refine ⟨?_, ?_, ?_, ?_, ?_, ?_⟩
  · rw [hdirectories]; exact h.directories
  · rw [hidentity]; exact h.identity
  · rw [hbackups]; exact h.backups
  · rw [habsent]; exact h.absent
  · rw [hbackups, habsent]; exact h.covered
  · rw [hbackups, habsent]; exact h.valid

omit [DecidableEq Path] in
/-- The staged and the restored files of a journal may change. -/
theorem Secured.setJournal {set : Nat} {journal journal' : Journal Path Content}
    (h : Secured request initial disk) (hjournal : disk.journals set = some journal)
    (hsame : SameRecord journal journal') :
    Secured request initial (disk.setJournal set (some journal')) := by
  have hset : set < request.sets := by
    by_contra hge
    rw [h.unused set (Nat.le_of_not_lt hge)] at hjournal
    cases hjournal
  refine ⟨?_, ?_, ?_, h.others⟩
  · obtain ⟨primary, hprimary, hready, hcommitted, hrolled⟩ := h.primary
    by_cases h0 : 0 = set
    · subst h0
      rw [hprimary] at hjournal
      cases hjournal
      obtain ⟨-, -, -, -, hr, hc, hb⟩ := hsame
      exact ⟨journal', setJournal_journals_self .., hr.trans hready, hc.trans hcommitted,
        hb.trans hrolled⟩
    · exact ⟨primary, (setJournal_journals_of_ne _ h0).trans hprimary, hready, hcommitted, hrolled⟩
  · intro other hother
    obtain ⟨found, hfound, hsaved⟩ := h.saved other hother
    by_cases heq : other = set
    · subst heq
      rw [hfound] at hjournal
      cases hjournal
      exact ⟨journal', setJournal_journals_self .., hsaved.of_sameRecord hsame⟩
    · exact ⟨found, (setJournal_journals_of_ne _ heq).trans hfound, hsaved⟩
  · intro other hother
    rw [setJournal_journals_of_ne _ (by omega)]
    exact h.unused other hother

theorem Secured.setFile {set : Nat} {path : Path} {content : Option Content}
    (h : Secured request initial disk) (hset : set < request.sets)
    (hpath : path ∈ request.destinations set) :
    Secured request initial (disk.setFile path content) := by
  refine ⟨h.primary, h.saved, h.unused, fun other hother => ?_⟩
  have hne : other ≠ path := fun heq => hother set hset (heq ▸ hpath)
  rw [setFile_files_of_ne _ hne]
  exact h.others other hother

/-- Once the primary journal records a decision over the outcome, only retirement is left. -/
theorem Secured.decide {primary decided : Journal Path Content}
    (h : Secured request initial disk) (hprimary : disk.journals 0 = some primary)
    (hidentity : decided.identity = primary.identity)
    (hdecided : decided.committed = true ∨ decided.rolledBack = true)
    (houtcome : Outcome request initial committed disk.files) :
    Cleaning request initial committed (cleanupOps request.sets)
      (disk.setJournal 0 (some decided)) := by
  have hpos := request.sets_pos
  have hunused : ∀ set, request.sets ≤ set →
      (disk.setJournal 0 (some decided)).journals set = none := by
    intro set hset
    rw [setJournal_journals_of_ne _ (by omega)]
    exact h.unused set hset
  refine ⟨⟨houtcome, ?_, hunused, ?_, ?_⟩, request.sets, Nat.le_refl _, rfl, hunused⟩
  · intro hnone
    rw [setJournal_journals_self] at hnone
    cases hnone
  · intro journal hjournal
    rw [setJournal_journals_self] at hjournal
    cases hjournal
    rcases hdecided with hcommitted | hrolled
    · exact .inl hcommitted
    · exact .inr (.inl hrolled)
  · intro set journal hjournal
    left
    have hset : set < request.sets := by
      by_contra hge
      rw [hunused set (Nat.le_of_not_lt hge)] at hjournal
      cases hjournal
    obtain ⟨found, hfound, hsaved⟩ := h.saved set hset
    rcases setJournal_journals_cases hjournal with ⟨rfl, heq⟩ | ⟨_, heq⟩
    · cases heq
      rw [hprimary] at hfound
      cases hfound
      rw [hidentity, hsaved.identity]
    · rw [hfound] at heq
      cases heq
      exact hsaved.identity

/-! ## The rollback -/

/-- The backup of a destination that existed is found in its journal. -/
theorem Saved.lookup {set : Nat} {journal : Journal Path Content} {path : Path}
    (h : Saved request initial set journal) (hpath : path ∈ request.destinations set)
    (hexists : (initial path).isSome) : journal.backups.lookup path = initial path := by
  have hkey : path ∈ journal.backups.map Prod.fst := by
    rcases h.covered path hpath with hkey | habsent
    · exact hkey
    · rw [(h.absent path habsent).2] at hexists
      cases hexists
  have hmem : ∀ backups : List (Path × Content), path ∈ backups.map Prod.fst →
      ∃ content, backups.lookup path = some content ∧ (path, content) ∈ backups := by
    intro backups
    induction backups with
    | nil => intro hnil; cases hnil
    | cons entry backups ih =>
      intro hin
      by_cases heq : path = entry.1
      · refine ⟨entry.2, ?_, ?_⟩
        · rw [List.lookup_cons, heq, beq_self_eq_true]
        · rw [heq]; exact List.mem_cons_self
      · have hrest : path ∈ backups.map Prod.fst := by
          rcases List.mem_cons.mp hin with h | h
          · exact absurd h heq
          · exact h
        obtain ⟨content, hlookup, hin'⟩ := ih hrest
        refine ⟨content, ?_, List.mem_cons_of_mem _ hin'⟩
        rw [List.lookup_cons, beq_eq_false_iff_ne.mpr heq]
        exact hlookup
  obtain ⟨content, hlookup, hin⟩ := hmem _ hkey
  rw [hlookup, (h.backups path content hin).2]

omit [DecidableEq Path] in
theorem rollbackOps_ne_nil (ops : List (FsOp Path Content)) (sets : Nat) :
    ops ++ .markRolledBack :: cleanupOps sets ≠ [] := by
  simp

/-- The next operation of a rollback succeeds. -/
theorem Rolling.step {op : FsOp Path Content} {todo : List (FsOp Path Content)}
    (h : Rolling request initial (op :: todo) disk) :
    ∃ disk', op.apply request.policy disk = some disk' ∧
      Concluding request initial false todo disk' := by
  obtain ⟨hsecured, ops, paths, hremaining, htodo, hprogress⟩ := h
  cases hremaining with
  | whole items hvalid =>
    cases items with
    | nil =>
      -- Everything is restored; the decision is recorded.
      obtain ⟨rfl, rfl⟩ := List.cons.inj htodo
      obtain ⟨primary, hprimary, hready, hcommitted, hrolled⟩ := hsecured.primary
      refine ⟨disk.setJournal 0 (some { primary with rolledBack := true }), ?_, .inr ?_⟩
      · exact inJournal_eq_some.mpr ⟨primary, _, hprimary, rfl, rfl⟩
      · have hfiles : disk.files = initial := by
          funext path
          by_cases hin : ∃ set < request.sets, path ∈ request.destinations set
          · obtain ⟨set, hset, hpath⟩ := hin
            rcases hprogress set hset path hpath with heq | hmem
            · exact heq
            · cases hmem
          · push Not at hin
            exact hsecured.others path hin
        have houtcome : Outcome request initial false disk.files := by
          simpa [Outcome] using hfiles
        exact hsecured.decide hprimary rfl (.inr rfl) houtcome
    | cons item items =>
      have hitem := hvalid item List.mem_cons_self
      have hrest : ∀ other ∈ items, other.Valid request initial :=
        fun other hother => hvalid other (List.mem_cons_of_mem _ hother)
      cases item with
      | existing set path =>
        obtain ⟨rfl, rfl⟩ := List.cons.inj htodo
        obtain ⟨hset, hpath, hexists⟩ := hitem
        obtain ⟨journal, hjournal, hsaved⟩ := hsecured.saved set hset
        obtain ⟨content, hcontent⟩ := Option.isSome_iff_exists.mp hexists
        have hlookup := (hsaved.lookup hpath hexists).trans hcontent
        refine ⟨_, inJournal_eq_some.mpr ⟨journal, _, hjournal, by rw [hlookup]; rfl, rfl⟩,
          .inl ⟨rfl, ?_⟩⟩
        refine ⟨hsecured.setJournal hjournal ⟨rfl, rfl, rfl, rfl, rfl, rfl, rfl⟩,
          .restore set path :: items.flatMap Restoration.ops, path :: items.map Restoration.path,
          ?_, rfl, hprogress⟩
        exact .copied items hrest hset hpath (setJournal_journals_self ..)
          ⟨hexists, by simp [hcontent]⟩
      | missing set path =>
        obtain ⟨rfl, rfl⟩ := List.cons.inj htodo
        have hmissing : initial path = none := hitem
        refine ⟨disk.setFile path none, rfl, .inl ⟨rfl, ?_⟩⟩
        refine ⟨⟨hsecured.primary, hsecured.saved, hsecured.unused, ?_⟩,
          items.flatMap Restoration.ops, items.map Restoration.path, .whole items hrest, rfl, ?_⟩
        · intro other hother
          by_cases heq : other = path
          · rw [heq, setFile_files_self, hmissing]
          · rw [setFile_files_of_ne _ heq]
            exact hsecured.others other hother
        · intro other hother found hfound
          by_cases heq : found = path
          · left
            rw [heq, setFile_files_self, hmissing]
          · rw [setFile_files_of_ne _ heq]
            rcases hprogress other hother found hfound with hdone | hmem
            · exact .inl hdone
            · rcases List.mem_cons.mp hmem with h | h
              · exact absurd h heq
              · exact .inr h
  | @copied set path journal items hvalid hset hpath hjournal hcontent =>
    obtain ⟨rfl, rfl⟩ := List.cons.inj htodo
    obtain ⟨hexists, hrestored⟩ := hcontent
    obtain ⟨content, hcontent⟩ := Option.isSome_iff_exists.mp hexists
    refine ⟨(disk.setJournal set (some { journal with
      restored := assign journal.restored path none })).setFile path (some content), ?_,
      .inl ⟨rfl, ?_⟩⟩
    · simp [FsOp.apply, hjournal, hrestored, hcontent]
    · refine ⟨?_, items.flatMap Restoration.ops, items.map Restoration.path, .whole items hvalid,
        rfl, ?_⟩
      · refine Secured.setFile (hsecured.setJournal hjournal ?_) hset hpath
        exact ⟨rfl, rfl, rfl, rfl, rfl, rfl, rfl⟩
      · intro other hother found hfound
        by_cases heq : found = path
        · left
          rw [heq, setFile_files_self, hcontent]
        · rw [setFile_files_of_ne _ heq, setJournal_files]
          rcases hprogress other hother found hfound with hdone | hmem
          · exact .inl hdone
          · rcases List.mem_cons.mp hmem with h | h
            · exact absurd h heq
            · exact .inr h

/-! ## The cleanup -/

omit [DecidableEq Path] in
theorem cleanupOps_succ (count : Nat) :
    (cleanupOps (count + 1) : List (FsOp Path Content)) = .retire count :: cleanupOps count := by
  simp [cleanupOps, List.range_succ]

theorem Settled.retire {count : Nat} (h : Settled request initial committed disk)
    (hbehind : ∀ set, count + 1 ≤ set → disk.journals set = none) :
    Settled request initial committed (disk.setJournal count none) := by
  have hfound : ∀ set journal, (disk.setJournal count none).journals set = some journal →
      disk.journals set = some journal := by
    intro set journal hjournal
    rcases setJournal_journals_cases hjournal with ⟨_, heq⟩ | ⟨_, heq⟩
    · cases heq
    · exact heq
  refine ⟨h.outcome, ?_, ?_, fun journal hjournal => h.decided journal (hfound _ _ hjournal),
    fun set journal hjournal => ?_⟩
  · intro hnone set
    by_cases heq : set = count
    · rw [heq, setJournal_journals_self]
    · rw [setJournal_journals_of_ne _ heq]
      by_cases h0 : 0 = count
      · exact hbehind set (by omega)
      · rw [setJournal_journals_of_ne _ h0] at hnone
        exact h.primaryLast hnone set
  · intro set hset
    by_cases heq : set = count
    · rw [heq, setJournal_journals_self]
    · rw [setJournal_journals_of_ne _ heq]
      exact h.unused set hset
  · rcases h.identities set journal (hfound _ _ hjournal) with hid | hready
    · exact .inl hid
    · exact .inr fun primary hprimary => hready primary (hfound _ _ hprimary)

/-- The next retirement succeeds. -/
theorem Cleaning.step {op : FsOp Path Content} {todo : List (FsOp Path Content)}
    (h : Cleaning request initial committed (op :: todo) disk) :
    ∃ disk', op.apply request.policy disk = some disk' ∧
      Cleaning request initial committed todo disk' := by
  obtain ⟨hsettled, count, hcount, htodo, hbehind⟩ := h
  cases count with
  | zero => simp [cleanupOps] at htodo
  | succ count =>
    rw [cleanupOps_succ] at htodo
    obtain ⟨rfl, rfl⟩ := List.cons.inj htodo
    refine ⟨disk.setJournal count none, rfl, hsettled.retire hbehind, count, by omega, rfl, ?_⟩
    intro set hset
    by_cases heq : set = count
    · rw [heq, setJournal_journals_self]
    · rw [setJournal_journals_of_ne _ heq]
      exact hbehind set (by omega)

/-! ## Both endings -/

theorem Concluding.step {op : FsOp Path Content} {todo : List (FsOp Path Content)}
    (h : Concluding request initial committed (op :: todo) disk) :
    ∃ disk', op.apply request.policy disk = some disk' ∧
      Concluding request initial committed todo disk' := by
  rcases h with ⟨rfl, hrolling⟩ | hcleaning
  · exact hrolling.step
  · obtain ⟨disk', happly, hnext⟩ := hcleaning.step
    exact ⟨disk', happly, .inr hnext⟩

theorem Concluding.recoverable {todo : List (FsOp Path Content)}
    (h : Concluding request initial committed todo disk) :
    Recoverable request initial committed disk := by
  rcases h with ⟨rfl, hrolling⟩ | hcleaning
  · exact .inr ⟨rfl, hrolling.secured⟩
  · exact .inl hcleaning.settled

/-- A conclusion with nothing left has reached the outcome and retired every journal. -/
theorem Concluding.finished (h : Concluding request initial committed [] disk) :
    Outcome request initial committed disk.files ∧ ∀ set, disk.journals set = none := by
  rcases h with ⟨rfl, -, ops, paths, -, htodo, -⟩ | ⟨hsettled, count, -, htodo, hbehind⟩
  · exact absurd htodo.symm (rollbackOps_ne_nil ops request.sets)
  · cases count with
    | zero => exact ⟨hsettled.outcome, fun set => hbehind set (Nat.zero_le _)⟩
    | succ count =>
      rw [cleanupOps_succ] at htodo
      cases htodo

/-- A conclusion that is not interrupted runs to its end. -/
theorem Concluding.execute {todo : List (FsOp Path Content)}
    (h : Concluding request initial committed todo disk) :
    ∃ disk', execute (FsOp.apply request.policy) todo disk = some disk' ∧
      Outcome request initial committed disk'.files ∧ ∀ set, disk'.journals set = none := by
  have hprogress : ∀ op rest disk, Concluding request initial committed (op :: rest) disk →
      ∃ disk', FsOp.apply request.policy disk op = some disk' ∧
        Concluding request initial committed rest disk' :=
    fun _ _ _ hnext => hnext.step
  obtain ⟨disk', hexec, hdone⟩ := execute_of_progress hprogress h
  exact ⟨disk', hexec, hdone.finished⟩

/-- A copy that is cut short disturbs neither ending. -/
theorem Concluding.torn {op : FsOp Path Content} {todo : List (FsOp Path Content)}
    (h : Concluding request initial committed (op :: todo) disk)
    (htorn : Torn request.policy disk op disk') :
    Concluding request initial committed (op :: todo) disk' := by
  rcases h with ⟨rfl, hsecured, ops, paths, hremaining, htodo, hprogress⟩ | hcleaning
  · cases hremaining with
    | whole items hvalid =>
      cases items with
      | nil =>
        obtain ⟨rfl, rfl⟩ := List.cons.inj htodo
        cases htorn
      | cons item items =>
        cases item with
        | existing set path =>
          obtain ⟨rfl, rfl⟩ := List.cons.inj htodo
          cases htorn with
          | copyRestore part hjournal =>
            refine .inl ⟨rfl, hsecured.setJournal hjournal ⟨rfl, rfl, rfl, rfl, rfl, rfl, rfl⟩,
              _, _, .whole _ hvalid, rfl, hprogress⟩
        | missing set path =>
          obtain ⟨rfl, rfl⟩ := List.cons.inj htodo
          cases htorn
    | copied =>
      obtain ⟨rfl, rfl⟩ := List.cons.inj htodo
      cases htorn
  · obtain ⟨-, count, -, htodo, -⟩ := hcleaning
    cases count with
    | zero => simp [cleanupOps] at htodo
    | succ count =>
      rw [cleanupOps_succ] at htodo
      obtain ⟨rfl, rfl⟩ := List.cons.inj htodo
      cases htorn

end EwfImage.Publication

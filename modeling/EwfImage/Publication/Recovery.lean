import EwfImage.Publication.Conclusion

/-!
# Recovery from a crash

From every disk that a crash can leave, the plan of an accepted `recover` is one of
the two endings: retire the journals when a decision is recorded or the
journals were never completed, else restore every backup first. Only an identity
that a crash cut short keeps the recovery from being accepted.

The main results are `Recoverable.accepted` and `Recoverable.plan`. `Recoverable` is either of
the two predicates of `Publication.Outcome`, so it holds of what any crash leaves; the order in
which backups are restored is a parameter, since it is that of a map in the source.
-/

namespace EwfImage.Publication

open Fallible Programs

variable {Path Content : Type} [DecidableEq Path] {request : Request Path Content}
  {initial : Path → Option Content} {disk : Disk Path Content} {committed : Bool}
  {order : List Path → List Path}

/-! ## The checks -/

omit [DecidableEq Path] in
theorem Saved.check {set : Nat} {journal : Journal Path Content}
    (h : Saved request initial set journal) (ready decided : Bool) :
    checkJournal request.policy request.identity.val ready decided set (some journal) = .ok () := by
  have hall : Request.directories.all journal.directories.contains = true := by
    simp [h.directories]
  have hvalid : (journal.backups.map Prod.fst ++ journal.absent).all
      (request.policy.validTarget set) = true :=
    List.all_eq_true.mpr fun path hpath => h.valid path hpath
  simp only [checkJournal, h.identity]
  rw [rejectIf_neg _ (by simp [request.identity.property]), ok_bind, rejectIf_neg _ (by simp),
    ok_bind]
  split
  · rw [rejectIf_neg _ (by simp [hall]), ok_bind, rejectIf_neg _ (by simpa using hvalid)]
  · rfl

theorem Settled.closed {primary : Journal Path Content}
    (h : Settled request initial committed disk) (hprimary : disk.journals 0 = some primary) :
    (primary.committed || primary.rolledBack || !primary.ready) = true := by
  rcases h.decided primary hprimary with hc | hr | hn
  · simp [hc]
  · simp [hr]
  · simp [hn]

theorem Settled.check {primary : Journal Path Content}
    (h : Settled request initial committed disk) (hwhole : IdentitiesWhole request disk)
    (hprimary : disk.journals 0 = some primary)
    (set : Nat) : checkJournal request.policy request.identity.val primary.ready
      (primary.committed || primary.rolledBack) set (disk.journals set) = .ok () := by
  have hclosed := h.closed hprimary
  unfold checkJournal
  split
  · rw [if_pos hclosed]
  · rename_i journal hjournal
    cases hidentity : journal.identity with
    | none =>
      rcases h.identities set journal hjournal with hid | hready
      · rw [hidentity] at hid
        cases hid
      · simp only
        rw [if_pos (by simp [hready primary hprimary])]
    | some found =>
      have hfound := hwhole set journal found hjournal hidentity
      subst hfound
      simp only
      rw [rejectIf_neg _ (by simp [request.identity.property]), ok_bind, rejectIf_neg _ (by simp),
        ok_bind, if_neg]
      intro hopen
      simp only [Bool.and_eq_true, Bool.not_eq_true'] at hopen
      rw [hopen.1, hopen.2] at hclosed
      cases hclosed

/-! ## The plan -/

/-- The restorations of a rollback, in the order of its listings. -/
def rollbackItems (order : List Path → List Path) (sets : Nat) (disk : Disk Path Content) :
    List (Restoration Path) :=
  (List.range sets).flatMap fun set =>
    match disk.journals set with
    | some journal => (order (journal.backups.map Prod.fst)).map (.existing set) ++
        (order journal.absent).map (.missing set)
    | none => []

omit [DecidableEq Path] in
theorem rollbackOps_eq_items (order : List Path → List Path) (sets : Nat)
    (disk : Disk Path Content) :
    rollbackOps order sets disk =
      (rollbackItems order sets disk).flatMap Restoration.ops ++ .markRolledBack :: cleanupOps sets := by
  have hset : ∀ set, (match disk.journals set with
      | some journal => restoreOps order set journal
      | none => []) =
      (match disk.journals set with
        | some journal => (order (journal.backups.map Prod.fst)).map (Restoration.existing set) ++
            (order journal.absent).map (Restoration.missing set)
        | none => []).flatMap Restoration.ops := by
    intro set
    cases disk.journals set with
    | none => rfl
    | some journal =>
      simp only [restoreOps, List.flatMap_append, List.flatMap_map, Restoration.ops]
      congr 1
      rw [← List.flatMap_singleton' (List.map _ _), List.flatMap_map]
  simp only [rollbackOps, rollbackItems, List.flatMap_assoc]
  congr 2
  funext set
  exact hset set

omit [DecidableEq Path] in
theorem Secured.rolling (h : Secured request initial disk)
    (horder : ∀ paths, (order paths).Perm paths) :
    Rolling request initial (rollbackOps order request.sets disk) disk := by
  refine ⟨h, _, _, .whole (rollbackItems order request.sets disk) ?_, rollbackOps_eq_items .., ?_⟩
  · intro item hitem
    simp only [rollbackItems, List.mem_flatMap, List.mem_range] at hitem
    obtain ⟨set, hset, hitem⟩ := hitem
    obtain ⟨journal, hjournal, hsaved⟩ := h.saved set hset
    simp only [hjournal, List.mem_append, List.mem_map] at hitem
    rcases hitem with ⟨path, hpath, rfl⟩ | ⟨path, hpath, rfl⟩
    · obtain ⟨⟨_, content⟩, hentry, rfl⟩ := List.mem_map.mp ((horder _).mem_iff.mp hpath)
      obtain ⟨hin, hcontent⟩ := hsaved.backups _ _ hentry
      exact ⟨hset, hin, by simp [hcontent]⟩
    · exact (hsaved.absent path ((horder _).mem_iff.mp hpath)).2
  · intro set hset path hpath
    right
    obtain ⟨journal, hjournal, hsaved⟩ := h.saved set hset
    simp only [rollbackItems, List.mem_map, List.mem_flatMap, List.mem_range]
    rcases hsaved.covered path hpath with hkey | habsent
    · refine ⟨.existing set path, ⟨set, hset, ?_⟩, rfl⟩
      rw [hjournal]
      exact List.mem_append_left _ (List.mem_map_of_mem ((horder _).mem_iff.mpr hkey))
    · refine ⟨.missing set path, ⟨set, hset, ?_⟩, rfl⟩
      rw [hjournal]
      exact List.mem_append_right _ (List.mem_map_of_mem ((horder _).mem_iff.mpr habsent))

/-- Over whole identities the recovery is accepted. -/
theorem Recoverable.accepted (h : Recoverable request initial committed disk)
    (hwhole : IdentitiesWhole request disk) (order : List Path → List Path) :
    ∃ plan, recover order request.policy request.sets request.identity.val disk =
      .ok ((disk.journals 0).isSome, plan) := by
  unfold recover
  cases hprimary : disk.journals 0 with
  | none =>
    have hnone : ∀ set, disk.journals set = none := by
      rcases h with hsettled | ⟨_, hsecured⟩
      · exact hsettled.primaryLast hprimary
      · obtain ⟨primary, hsome, -⟩ := hsecured.primary
        rw [hsome] at hprimary
        cases hprimary
    refine ⟨[], ?_⟩
    rw [rejectIf_neg _ (by simp [hnone])]
    rfl
  | some primary =>
    have hchecks : ∀ set ∈ List.range request.sets, checkJournal request.policy
        request.identity.val primary.ready (primary.committed || primary.rolledBack) set
        (disk.journals set) = .ok () := by
      intro set hset
      rcases h with hsettled | ⟨_, hsecured⟩
      · exact hsettled.check hwhole hprimary set
      · obtain ⟨journal, hjournal, hsaved⟩ := hsecured.saved set (List.mem_range.mp hset)
        rw [hjournal]
        exact hsaved.check _ _
    simp only
    rw [forM_eq_ok hchecks, ok_bind]
    exact ⟨_, rfl⟩

/-- An accepted recovery plans one of the two endings. -/
theorem Recoverable.plan {found : Bool} {plan : List (FsOp Path Content)}
    (h : Recoverable request initial committed disk) (horder : ∀ paths, (order paths).Perm paths)
    (hplan : recover order request.policy request.sets request.identity.val disk =
      .ok (found, plan)) :
    found = (disk.journals 0).isSome ∧ Concluding request initial committed plan disk := by
  unfold recover at hplan
  cases hprimary : disk.journals 0 with
  | none =>
    rw [hprimary] at hplan
    simp only [bind_eq_ok, pure_eq_ok, Except.ok.injEq, Prod.mk.injEq] at hplan
    obtain ⟨-, -, rfl, rfl⟩ := hplan
    refine ⟨rfl, ?_⟩
    rcases h with hsettled | ⟨_, hsecured⟩
    · have hnone := hsettled.primaryLast hprimary
      exact .inr ⟨hsettled, 0, Nat.zero_le _, rfl, fun set _ => hnone set⟩
    · obtain ⟨primary, hsome, -⟩ := hsecured.primary
      rw [hsome] at hprimary
      cases hprimary
  | some primary =>
    rw [hprimary] at hplan
    simp only [bind_eq_ok, pure_eq_ok, Except.ok.injEq, Prod.mk.injEq] at hplan
    obtain ⟨-, -, rfl, rfl⟩ := hplan
    refine ⟨rfl, ?_⟩
    rcases h with hsettled | ⟨rfl, hsecured⟩
    · rw [if_pos (hsettled.closed hprimary)]
      exact .inr ⟨hsettled, request.sets, Nat.le_refl _, rfl, hsettled.unused⟩
    · obtain ⟨found, hfound, hready, hcommitted, hrolled⟩ := hsecured.primary
      rw [hprimary] at hfound
      cases hfound
      rw [if_neg (by simp [hcommitted, hrolled, hready])]
      exact .inl ⟨rfl, hsecured.rolling horder⟩

end EwfImage.Publication

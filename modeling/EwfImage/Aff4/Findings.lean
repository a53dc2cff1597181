import EwfImage.Aff4.Traversal

/-!
# What a verification finds

The report of a verification grows resource by resource and subject by subject. The lemmas
here say what each of them adds to it, and that a verification ends as aborted as soon as it
is told to stop.

The main result is `verifyAll_spec`, the checks of a whole report. Each lemma in front of it
says what one resource or one subject adds, in the words of the reader's programs without
caches, so that it holds after every history.
-/

namespace EwfImage.Aff4

open Fallible Queries Slice Std

/-- The values of a map are those of its entries. -/
theorem values_eq_map_toList {α β : Type} [Ord α] [TransOrd α] (map : TreeMap α β) :
    map.values = map.toList.map Prod.snd := by
  change map.inner.inner.values =
    (DTreeMap.Internal.Impl.Const.toList map.inner.inner).map Prod.snd
  rw [DTreeMap.Internal.Impl.values_eq_map_snd,
    DTreeMap.Internal.Impl.Const.toList_eq_toListModel_map, List.map_map]
  rfl

namespace Container

variable {c : Container} {id : String}

/-! ## Listeners that stop a verification -/

section Stopping

variable {α β : Type}

/-- A computation with a budget ends as aborted when it is stopped. -/
def BudgetedStops (x : c.Budgeted α) : Prop :=
  ∀ remaining, Program.Stops .aborted (x.run.run remaining)

theorem budgetedStops_pure (a : α) : BudgetedStops (pure a : c.Budgeted α) :=
  fun _ => Program.stops_pure _

theorem budgetedStops_ofResult (r : Result α) : BudgetedStops (c.ofResult r) :=
  fun _ => Program.stops_pure _

theorem budgetedStops_ofReading (p : c.Reading α) : BudgetedStops (c.ofReading p) :=
  fun _ => (Program.stops_quiet _).bind fun _ => Program.stops_pure _

theorem budgetedStops_progress (resource : String) (done size : Nat) :
    BudgetedStops (c.ofWalking (c.progress resource done size)) :=
  fun _ => ((Program.stops_signal _).bind fun _ => Program.stops_pure _).bind
    fun _ => Program.stops_pure _

theorem budgetedStops_spend (take : Nat) : BudgetedStops (c.spend take) :=
  fun _ => Program.stops_ite (fun _ => Program.stops_pure _) fun _ => Program.stops_pure _

theorem BudgetedStops.bind {x : c.Budgeted α} {f : α → c.Budgeted β} (hx : BudgetedStops x)
    (hf : ∀ a, BudgetedStops (f a)) : BudgetedStops (x >>= f) := by
  intro remaining
  refine (hx remaining).bind fun (r, remaining') => ?_
  cases r with
  | ok a => exact hf a remaining'
  | error e => exact Program.stops_pure _

theorem budgetedStops_ite {p : Prop} [Decidable p] {x y : c.Budgeted α} (hx : BudgetedStops x)
    (hy : BudgetedStops y) : BudgetedStops (if p then x else y) := by
  by_cases hp : p
  · rw [if_pos hp]
    exact hx
  · rw [if_neg hp]
    exact hy

theorem budgetedStops_blockLoop (name algorithm : String) (geometry : BlockGeometry)
    (recorded : Bytes) (width bevy fuel n : Nat) (check : IntegrityCheck) :
    BudgetedStops (c.blockLoop id name algorithm geometry recorded width bevy fuel n check) := by
  induction fuel generalizing n check with
  | zero => exact budgetedStops_pure _
  | succ fuel ih =>
    refine (budgetedStops_progress _ _ _).bind fun _ => (budgetedStops_spend _).bind fun _ => ?_
    exact (budgetedStops_ofReading _).bind fun bytes => ih _ _

theorem budgetedStops_suffixLoop (algorithm : String) (geometry : BlockGeometry) (width : Nat)
    (names : TreeMap Nat String) (fuel bevy : Nat) (checks : List IntegrityCheck) :
    BudgetedStops (c.suffixLoop id algorithm geometry width names fuel bevy checks) := by
  induction fuel generalizing bevy checks with
  | zero => exact budgetedStops_pure _
  | succ fuel ih =>
    refine (budgetedStops_ofResult _).bind fun recorded => ?_
    exact (budgetedStops_blockLoop _ _ _ _ _ _ _ _ _).bind fun check => ih _ _

theorem budgetedStops_checkSuffix (geometry : BlockGeometry) (kind : String × String × Nat) :
    BudgetedStops (c.checkSuffix id geometry kind) := by
  refine (budgetedStops_ofResult _).bind fun names => ?_
  refine budgetedStops_ite (budgetedStops_pure _) (budgetedStops_ite ?_ ?_)
  · exact budgetedStops_ofResult _
  · exact budgetedStops_suffixLoop _ _ _ _ _ _ _

theorem budgetedStops_checkSuffixes (geometry : BlockGeometry)
    (kinds : List (String × String × Nat)) :
    BudgetedStops (c.checkSuffixes id geometry kinds) := by
  induction kinds with
  | nil => exact budgetedStops_pure _
  | cons kind kinds ih =>
    refine (budgetedStops_checkSuffix _ _).bind fun checks => ?_
    exact ih.bind fun rest => budgetedStops_pure _

theorem budgetedStops_pairedBlockLoop (md5Name sha256Name : String) (geometry : BlockGeometry)
    (md5 sha256 : Bytes) (bevy : Nat) (verified : Option PairedBlockDigests) (fuel n : Nat)
    (checks : IntegrityCheck × IntegrityCheck) :
    BudgetedStops (c.pairedBlockLoop id md5Name sha256Name geometry md5 sha256 bevy verified fuel n
      checks) := by
  induction fuel generalizing n checks with
  | zero => exact budgetedStops_pure _
  | succ fuel ih =>
    refine (budgetedStops_progress _ _ _).bind fun _ => (budgetedStops_spend _).bind fun _ => ?_
    refine (budgetedStops_progress _ _ _).bind fun _ => (budgetedStops_spend _).bind fun _ => ?_
    refine (budgetedStops_ite ?_ (budgetedStops_pure _)).bind fun bytes => ih _ _
    exact budgetedStops_ofReading _

theorem budgetedStops_pairedLoop (geometry : BlockGeometry)
    (md5Names sha256Names : TreeMap Nat String) (verified : Option PairedBlockDigests)
    (fuel bevy : Nat) (checks : List IntegrityCheck × List IntegrityCheck) :
    BudgetedStops (c.pairedLoop id geometry md5Names sha256Names verified fuel bevy checks) := by
  induction fuel generalizing bevy checks with
  | zero => exact budgetedStops_pure _
  | succ fuel ih =>
    refine (budgetedStops_ofResult _).bind fun md5 => ?_
    refine (budgetedStops_ofResult _).bind fun sha256 => ?_
    exact (budgetedStops_pairedBlockLoop _ _ _ _ _ _ _ _ _ _).bind fun found => ih _ _

theorem budgetedStops_checkBlocks (verified : Option PairedBlockDigests) :
    BudgetedStops (c.checkBlocks id verified) := by
  refine (budgetedStops_ofResult _).bind fun geometry => ?_
  refine (budgetedStops_ofResult _).bind fun md5Names => ?_
  refine (budgetedStops_ofResult _).bind fun sha256Names => ?_
  refine budgetedStops_ite ?_ (budgetedStops_checkSuffixes _ _)
  refine (budgetedStops_ofResult _).bind fun _ => (budgetedStops_ofResult _).bind fun _ => ?_
  exact budgetedStops_pairedLoop _ _ _ _ _ _ _

theorem stops_streamChecks (remaining : Nat) (verified : Option PairedBlockDigests) :
    Program.Stops .aborted (c.streamChecks id remaining verified) := by
  refine Program.stops_ite (fun _ => ?_) fun _ => Program.stops_pure _
  refine (budgetedStops_checkBlocks verified remaining).bind fun (r, remaining') => ?_
  cases r with
  | ok checks => exact Program.stops_ite (fun _ => Program.stops_pure _) fun _ => Program.stops_pure _
  | error e => cases e <;> first | exact Program.stops_throw _ | exact Program.stops_pure _

theorem stops_subjectStep (blocks : TreeMap String PairedBlockDigests)
    (state : Nat × List IntegrityCheck) :
    Program.Stops .aborted (c.subjectStep blocks state id) := by
  refine (Program.stops_signal _).bind fun _ => (stops_lift _).bind fun absences => ?_
  exact (stops_streamChecks _ _).bind fun _ => Program.stops_pure _

theorem stops_traverse (progression : Progression) (key : String) (size : Nat) :
    Program.Stops .aborted (c.traverse progression id key size) := by
  unfold traverse
  cases progression.computed key with
  | some computed =>
    refine (Program.stops_signal _).bind fun _ => (stops_reading _).bind fun _ => ?_
    exact (Program.stops_signal _).bind fun _ => (stops_lift _).bind fun _ => Program.stops_pure _
  | none =>
    dsimp only
    cases c.pairedBlockSize key with
    | some blockSize =>
      refine Program.Stops.bind ?_ fun _ => Program.stops_pure _
      exact (stops_copyVerifiedImpl _).bind fun _ => Program.stops_pure _
    | none =>
      refine Program.Stops.bind (Program.Stops.bind ?_ fun _ => Program.stops_pure _) fun _ =>
        Program.stops_pure _
      exact (stops_copyVerifiedImpl _).bind fun _ => Program.stops_pure _

/-- What follows a visit is stopped, too, if it passes on that the visit was. -/
theorem stops_visit_bind {progression : Progression} {f : Visit → c.Walking β}
    (hstop : ∀ backing remaining, f ⟨.error .aborted, backing, remaining⟩ = throw .aborted)
    (hf : ∀ visit, Program.Stops .aborted (f visit)) :
    Program.Stops .aborted (c.visit progression id >>= f) := by
  unfold visit
  cases c.size id with
  | error e => exact hf _
  | ok size =>
    dsimp only
    by_cases hbudget : progression.remaining < size
    · rw [if_pos hbudget]
      exact hf _
    · rw [if_neg hbudget, Program.bind_assoc]
      refine (Program.stops_quiet _).bind fun r => ?_
      cases r with
      | error e => exact hf _
      | ok key =>
        dsimp only
        rw [Program.bind_assoc]
        exact (stops_traverse _ _ _).attempt_bind (hstop _ _) fun value => hf _

theorem stops_linearStep (progression : Progression) :
    Program.Stops .aborted (c.linearStep progression id) := by
  refine stops_visit_bind (fun _ _ => rfl) fun visit => Program.Stops.bind ?_ fun found => ?_
  · cases visit.value with
    | error e => cases e <;> first | exact Program.stops_throw _ | exact Program.stops_pure _
    | ok value =>
      refine (Program.stops_quiet _).bind fun coverage => ?_
      cases coverage <;> exact Program.stops_pure _
  · exact (stops_lift _).bind fun checks => Program.stops_pure _

theorem stops_foldlM {step : β → String → c.Walking β}
    (hstep : ∀ state id, Program.Stops .aborted (step state id)) (ids : List String) (state : β) :
    Program.Stops .aborted (ids.foldlM step state) := by
  induction ids generalizing state with
  | nil => exact Program.stops_pure _
  | cons id ids ih => exact (hstep state id).bind fun state' => ih state'

/-- A verification that is stopped ends as aborted. -/
theorem stops_verifyAll (expected : Option String) :
    Program.Stops .aborted (c.verifyAll expected) := by
  refine (Program.stops_signal _).bind fun _ => ?_
  refine (stops_foldlM (fun _ _ => stops_linearStep _) _ _).bind fun linear => ?_
  exact (stops_foldlM (fun _ _ => stops_subjectStep _ _) _ _).bind fun _ => Program.stops_pure _

end Stopping

/-! ## Linear digests -/

/-- A verification has the digests of some bytes. -/
structure HasDigests (c : Container) (v : Verification) (bytes : Bytes) : Prop where
  md5 : v.md5 = hex (c.libraries.md5 bytes)
  sha1 : v.sha1 = hex (c.libraries.sha1 bytes)
  sha256 : v.sha256 = hex (c.libraries.sha256 bytes)
  sha512 : v.sha512 = hex (c.libraries.sha512 bytes)
  blake2b : v.blake2b = hex (c.libraries.blake2b bytes)

theorem hasDigests_digests (size : Nat) (bytes : Bytes) :
    c.HasDigests (c.digests size bytes) bytes := ⟨rfl, rfl, rfl, rfl, rfl⟩

theorem linearReference_hasDigests {v v' : Verification} {p : Property} {bytes : Bytes}
    (hrun : linearReference v p = .ok v') (h : c.HasDigests v bytes) : c.HasDigests v' bytes := by
  unfold linearReference at hrun
  dsimp only at hrun
  cases hdigest : linearDigest v (p.datatype.getD "") with
  | none =>
    rw [hdigest] at hrun
    cases hrun
    exact ⟨h.md5, h.sha1, h.sha256, h.sha512, h.blake2b⟩
  | some expected =>
    rw [hdigest] at hrun
    rw [bind_eq_ok] at hrun
    obtain ⟨_, -, hrun⟩ := hrun
    cases hrun
    exact ⟨h.md5, h.sha1, h.sha256, h.sha512, h.blake2b⟩

/-- Comparing digests with references does not change them. -/
theorem withLinearReferences_hasDigests {v v' : Verification} {bytes : Bytes}
    (hrun : c.withLinearReferences id v = .ok v') (h : c.HasDigests v bytes) :
    c.HasDigests v' bytes := by
  refine foldlM_invariant (I := fun v => c.HasDigests v bytes)
    (fun _ _ _ hbefore _ hstep => linearReference_hasDigests hstep hbefore) ?_ hrun
  exact ⟨h.md5, h.sha1, h.sha256, h.sha512, h.blake2b⟩

/-- The verification has the digests of a walk of a resource with the same backing. -/
def Digested (c : Container) (id : String) (v : Verification) : Prop :=
  ∃ key other pieces, c.backing 32 [] id = .ok key ∧ c.backing 32 [] other = .ok key ∧
    (c.walkBytes other).eval (Program.undisturbed c.answer) = .ok pieces ∧
    c.HasDigests v pieces.flatten

/-- What has been found is the result of walks, under the backings that were walked. -/
structure Progression.Sound (c : Container) (progression : Progression) : Prop where
  digested : ∀ resource ∈ progression.resources, ∀ v, resource.verification = some v →
    c.Digested resource.resource v
  backings : ∀ key index, progression.verifiedBackings[key]? = some index →
    ∃ resource, progression.resources[index]? = some resource ∧
      c.backing 32 [] resource.resource = .ok key

theorem eval_copyVerified_digested {blockSize : Option Nat} {key : String} {v : Verification}
    {blocks : Option PairedBlockDigests} {pieces : List Bytes}
    (hkey : c.backing 32 [] id = .ok key)
    (h : (c.copyVerifiedImpl blockSize id).eval (Program.undisturbed c.answer) =
      .ok (v, blocks, pieces)) : c.Digested id v := by
  obtain ⟨hwalk, -, size, -, hresult⟩ := eval_copyVerifiedImpl_eq_ok h
  exact ⟨key, id, pieces, hkey, hkey, hwalk,
    withLinearReferences_hasDigests hresult (hasDigests_digests size _)⟩

/-- A traversal has the digests of a walk. -/
theorem digested_of_traverse {progression : Progression} {key : String} {size : Nat}
    {v : Verification} {blocks : Option PairedBlockDigests} (hsound : progression.Sound c)
    (hkey : c.backing 32 [] id = .ok key)
    (h : (c.traverse progression id key size).eval (Program.undisturbed c.answer) =
      .ok (v, blocks)) : c.Digested id v := by
  unfold traverse at h
  cases hcomputed : progression.computed key with
  | some computed =>
    rw [hcomputed, Program.eval_bind, bind_eq_ok] at h
    obtain ⟨_, -, h⟩ := h
    rw [Program.eval_bind, bind_eq_ok] at h
    obtain ⟨_, -, h⟩ := h
    rw [Program.eval_bind, bind_eq_ok] at h
    obtain ⟨_, -, h⟩ := h
    rw [Program.eval_bind, Program.eval_lift, bind_eq_ok] at h
    obtain ⟨verification, hreferences, h⟩ := h
    cases h
    obtain ⟨index, hindex, hresource⟩ := Option.bind_eq_some_iff.mp hcomputed
    obtain ⟨resource, hfound, hverification⟩ := Option.bind_eq_some_iff.mp hresource
    obtain ⟨resource', hfound', hbacking⟩ := hsound.backings key index hindex
    rw [hfound, Option.some.injEq] at hfound'
    subst hfound'
    obtain ⟨key', other, pieces, hkey', hother, hwalk, hdigests⟩ :=
      hsound.digested resource (List.mem_of_getElem? hfound) computed hverification
    rw [hbacking, Except.ok.injEq] at hkey'
    subst hkey'
    exact ⟨key, other, pieces, hkey, hother, hwalk,
      withLinearReferences_hasDigests hreferences hdigests⟩
  | none =>
    rw [hcomputed] at h
    dsimp only at h
    cases hsize : c.pairedBlockSize key with
    | some blockSize =>
      rw [hsize] at h
      dsimp only at h
      rw [Program.eval_bind, bind_eq_ok] at h
      obtain ⟨found, hcopy, h⟩ := h
      cases h
      rw [verifyWithPairedBlocks, Program.eval_bind, bind_eq_ok] at hcopy
      obtain ⟨found', hcopy, hfound⟩ := hcopy
      cases hfound
      exact eval_copyVerified_digested hkey hcopy
    | none =>
      rw [hsize] at h
      dsimp only at h
      rw [Program.eval_bind, bind_eq_ok] at h
      obtain ⟨found, hcopy, h⟩ := h
      cases h
      rw [verify, Program.eval_bind, bind_eq_ok] at hcopy
      obtain ⟨copied, hcopy, hfound⟩ := hcopy
      cases hfound
      rw [copyVerified, Program.eval_bind, bind_eq_ok] at hcopy
      obtain ⟨found', hcopy, hfound⟩ := hcopy
      cases hfound
      exact eval_copyVerified_digested hkey hcopy

/-- What a visit finds, it finds by a walk. -/
theorem visit_spec {progression : Progression} {visit : Visit} (hsound : progression.Sound c)
    (h : (c.visit progression id).eval (Program.undisturbed c.answer) = .ok visit) :
    (∀ v blocks, visit.value = .ok (v, blocks) → c.Digested id v) ∧
      ∀ key, visit.backing = some key → c.backing 32 [] id = .ok key := by
  unfold Container.visit at h
  cases hsize : c.size id with
  | error e =>
    rw [hsize] at h
    cases h
    exact ⟨fun _ _ hvalue => (by cases hvalue), fun _ hbacking => (by cases hbacking)⟩
  | ok size =>
    rw [hsize] at h
    dsimp only at h
    by_cases hbudget : progression.remaining < size
    · rw [if_pos hbudget] at h
      cases h
      exact ⟨fun _ _ hvalue => (by cases hvalue), fun _ hbacking => (by cases hbacking)⟩
    · rw [if_neg hbudget, Program.eval_bind, Program.eval_quiet, Program.eval_attempt,
        eval_linearBacking, ok_bind] at h
      cases hkey : c.backing 32 [] id with
      | error e =>
        rw [hkey] at h
        cases h
        exact ⟨fun _ _ hvalue => (by cases hvalue), fun _ hbacking => (by cases hbacking)⟩
      | ok key =>
        rw [hkey] at h
        dsimp only at h
        rw [Program.eval_bind, Program.eval_attempt, ok_bind] at h
        cases h
        refine ⟨fun v blocks hvalue => digested_of_traverse hsound hkey hvalue, fun _ hsame => ?_⟩
        cases hsame
        rfl

/-- What a turn over the data resources adds. -/
theorem linearStep_spec {before after : Progression} (hsound : before.Sound c)
    (h : (c.linearStep before id).eval (Program.undisturbed c.answer) = .ok after) :
    after.Sound c ∧ ∃ verification coverage error checks,
      c.linearChecks id verification error = .ok checks ∧
      after.checks = before.checks ++ checks ∧
      after.resources = before.resources ++ [⟨id, verification, coverage, error⟩] := by
  rw [linearStep, Program.eval_bind, bind_eq_ok] at h
  obtain ⟨visit, hvisit, h⟩ := h
  obtain ⟨hdigested, hbacking⟩ := visit_spec hsound hvisit
  rw [Program.eval_bind, bind_eq_ok] at h
  obtain ⟨⟨verification, coverage, error⟩, hfound, h⟩ := h
  have hverification : ∀ v, verification = some v → c.Digested id v := by
    rintro v rfl
    cases hvalue : visit.value with
    | error e =>
      rw [hvalue] at hfound
      cases e <;> cases hfound
    | ok value =>
      obtain ⟨v', blocks⟩ := value
      rw [hvalue] at hfound
      dsimp only at hfound
      rw [Program.eval_bind, Program.eval_quiet, Program.eval_attempt, ok_bind] at hfound
      refine hdigested v blocks ?_
      rw [hvalue]
      cases hcoverage : (c.byteCoverage 32 [] id 0 v'.bytesVerified).eval c.answer with
      | ok found =>
        rw [hcoverage] at hfound
        cases hfound
        rfl
      | error e =>
        rw [hcoverage] at hfound
        cases hfound
        rfl
  dsimp only at h
  rw [Program.eval_bind, Program.eval_lift, bind_eq_ok] at h
  obtain ⟨checks, hchecks, h⟩ := h
  cases h
  refine ⟨⟨?_, ?_⟩, verification, coverage, error, checks, hchecks, rfl, rfl⟩
  · intro resource hresource v hv
    rcases List.mem_append.mp hresource with hold | hnew
    · exact hsound.digested resource hold v hv
    · rw [List.mem_singleton] at hnew
      subst hnew
      exact hverification v hv
  · intro key index hindex
    have hkept : before.verifiedBackings[key]? = some index → ∃ resource,
        (before.resources ++ [⟨id, verification, coverage, error⟩])[index]? = some resource ∧
          c.backing 32 [] resource.resource = .ok key := by
      intro hold
      obtain ⟨resource, hresource, hkey⟩ := hsound.backings key index hold
      obtain ⟨hlt, -⟩ := List.getElem?_eq_some_iff.mp hresource
      exact ⟨resource, by rw [List.getElem?_append_left hlt, hresource], hkey⟩
    dsimp only at hindex ⊢
    cases coverage with
    | none => exact hkept hindex
    | some covered =>
      cases hvisited : visit.backing with
      | none =>
        rw [hvisited] at hindex
        exact hkept hindex
      | some walked =>
        rw [hvisited] at hindex
        dsimp only at hindex
        by_cases hfirst : before.verifiedBackings.contains walked = true
        · rw [if_pos hfirst] at hindex
          exact hkept hindex
        · rw [if_neg hfirst, TreeMap.getElem?_insert] at hindex
          by_cases hsame : compare walked key = .eq
          · rw [if_pos hsame, Option.some.injEq] at hindex
            subst hindex
            refine ⟨⟨id, verification, some covered, error⟩, by simp, ?_⟩
            rw [← LawfulEqCmp.eq_of_compare hsame]
            exact hbacking walked hvisited
          · rw [if_neg hsame] at hindex
            exact hkept hindex

/-- What the resource contributes to the checks. -/
def LinearFindings (c : Container) (id : String) (checks : List IntegrityCheck) : Prop :=
  ∃ verification error, (∀ v, verification = some v → c.Digested id v) ∧
    c.linearChecks id verification error = .ok checks

/-- What the loop over the data resources adds. -/
theorem linearSteps_spec {ids : List String} {before after : Progression}
    (hsound : before.Sound c)
    (h : (ids.foldlM c.linearStep before).eval (Program.undisturbed c.answer) = .ok after) :
    ∃ findings, List.Forall₂ c.LinearFindings ids findings ∧
      after.checks = before.checks ++ findings.flatten := by
  induction ids generalizing before with
  | nil =>
    cases h
    exact ⟨[], .nil, by simp⟩
  | cons id ids ih =>
    rw [List.foldlM_cons, Program.eval_bind, bind_eq_ok] at h
    obtain ⟨middle, hstep, h⟩ := h
    obtain ⟨hmiddle, verification, coverage, error, checks, hchecks, happend, hresources⟩ :=
      linearStep_spec hsound hstep
    have hdigested : ∀ v, verification = some v → c.Digested id v := by
      intro v hv
      refine hmiddle.digested ⟨id, verification, coverage, error⟩ ?_ v hv
      rw [hresources]
      exact List.mem_append_right _ (List.mem_singleton_self _)
    obtain ⟨findings, hfindings, hafter⟩ := ih hmiddle h
    refine ⟨checks :: findings, .cons ⟨verification, error, hdigested, hchecks⟩ hfindings, ?_⟩
    rw [hafter, happend, List.flatten_cons, List.append_assoc]

/-! ## Block digests -/

section Yields

variable {α β : Type} {P : α → Prop} {Q : β → Prop}

/-- Whenever a computation with a budget succeeds, its result has the property. -/
def BudgetedYields (P : α → Prop) (x : c.Budgeted α) : Prop :=
  ∀ remaining a remaining', (x.run.run remaining).eval (Program.undisturbed c.answer) =
    .ok (.ok a, remaining') → P a

theorem budgetedYields_pure {a : α} (h : P a) : BudgetedYields P (pure a : c.Budgeted α) := by
  intro remaining a' remaining' hrun
  cases hrun
  exact h

theorem budgetedYields_ofResult {r : Result α} (h : ∀ a, r = .ok a → P a) :
    BudgetedYields P (c.ofResult r) := by
  intro remaining a remaining' hrun
  cases r with
  | ok a' =>
    cases hrun
    exact h a rfl
  | error e => cases hrun

theorem BudgetedYields.bind {x : c.Budgeted α} {f : α → c.Budgeted β} (hx : BudgetedYields P x)
    (hf : ∀ a, P a → BudgetedYields Q (f a)) : BudgetedYields Q (x >>= f) := by
  intro remaining b remaining' hrun
  change (x.run.run remaining >>= fun found => ExceptT.bindCont f found.1 found.2).eval _ = _
    at hrun
  rw [Program.eval_bind, bind_eq_ok] at hrun
  obtain ⟨⟨r, middle⟩, hfirst, hrun⟩ := hrun
  cases r with
  | ok a => exact hf a (hx remaining a middle hfirst) middle b remaining' hrun
  | error e => cases hrun

/-- The first part of a computation does not matter. -/
theorem budgetedYields_after {x : c.Budgeted α} {f : α → c.Budgeted β}
    (hf : ∀ a, BudgetedYields Q (f a)) : BudgetedYields Q (x >>= f) :=
  BudgetedYields.bind (P := fun _ => True) (fun _ _ _ _ => trivial) fun a _ => hf a

theorem budgetedYields_ite {p : Prop} [Decidable p] {x y : c.Budgeted α}
    (hx : p → BudgetedYields P x) (hy : ¬ p → BudgetedYields P y) :
    BudgetedYields P (if p then x else y) := by
  by_cases hp : p
  · rw [if_pos hp]
    exact hx hp
  · rw [if_neg hp]
    exact hy hp

end Yields

/-- A check of one of the given members. -/
def ChecksMember (names : TreeMap Nat String) (check : IntegrityCheck) : Prop :=
  check.referenceSource ∈ names.values

theorem referenceSource_noteBlock (check : IntegrityCheck) (outcome : CheckOutcome)
    (block offset : Nat) :
    (noteBlock check outcome block offset).referenceSource = check.referenceSource := by
  unfold noteBlock
  by_cases hmatch : outcome = .match
  · rw [if_pos hmatch]
  · rw [if_neg hmatch]

theorem mem_values_of_recordedBlocks {geometry : BlockGeometry} {width bevy : Nat}
    {names : TreeMap Nat String} {found : String × Bytes}
    (h : c.recordedBlocks geometry width bevy names = .ok found) : found.1 ∈ names.values := by
  rw [recordedBlocks, bind_eq_ok] at h
  obtain ⟨name, hname, h⟩ := h
  rw [okOr_eq_ok] at hname
  simp only [bind_eq_ok, pure_eq_ok] at h
  obtain ⟨_, -, _, -, _, -, _, -, hfound⟩ := h
  cases hfound
  exact List.mem_of_getElem? hname

theorem yields_blockLoop (name algorithm : String) (geometry : BlockGeometry) (recorded : Bytes)
    (width bevy fuel n : Nat) (check : IntegrityCheck) :
    BudgetedYields (fun found => found.referenceSource = check.referenceSource)
      (c.blockLoop id name algorithm geometry recorded width bevy fuel n check) := by
  induction fuel generalizing n check with
  | zero => exact budgetedYields_pure rfl
  | succ fuel ih =>
    refine budgetedYields_after fun _ => budgetedYields_after fun _ =>
      budgetedYields_after fun bytes => ?_
    have hrest := ih (n + 1) (noteBlock check (c.blockOutcome id name algorithm recorded n width
      bytes) (bevy * geometry.per + n) ((bevy * geometry.per + n) * geometry.chunk))
    rw [referenceSource_noteBlock] at hrest
    exact hrest

theorem yields_suffixLoop (algorithm : String) (geometry : BlockGeometry) (width : Nat)
    (names : TreeMap Nat String) (fuel bevy : Nat) (checks : List IntegrityCheck)
    (hchecks : ∀ check ∈ checks, ChecksMember names check) :
    BudgetedYields (fun found => ∀ check ∈ found, ChecksMember names check)
      (c.suffixLoop id algorithm geometry width names fuel bevy checks) := by
  induction fuel generalizing bevy checks with
  | zero => exact budgetedYields_pure hchecks
  | succ fuel ih =>
    refine (budgetedYields_ofResult fun found hfound => mem_values_of_recordedBlocks hfound).bind
      fun found hname => ?_
    refine (yields_blockLoop _ _ _ _ _ _ _ _ _).bind fun check hcheck => ih _ _ ?_
    intro other hother
    rcases List.mem_append.mp hother with hold | hnew
    · exact hchecks other hold
    · rw [List.mem_singleton] at hnew
      subst hnew
      unfold ChecksMember
      rw [hcheck]
      exact hname

/-- A check of a member with block digests of the stream. -/
def ChecksBlocks (c : Container) (id : String) (check : IntegrityCheck) : Prop :=
  ∃ kind ∈ blockSuffixes, ∃ names, c.blockNames id kind.1 = .ok names ∧ ChecksMember names check

theorem yields_checkSuffix (geometry : BlockGeometry) {kind : String × String × Nat}
    (hkind : kind ∈ blockSuffixes) :
    BudgetedYields (fun found => ∀ check ∈ found, c.ChecksBlocks id check)
      (c.checkSuffix id geometry kind) := by
  obtain ⟨suffix, algorithm, width⟩ := kind
  refine (budgetedYields_ofResult (P := fun names => c.blockNames id suffix = .ok names)
    fun names hnames => hnames).bind fun names hnames => ?_
  refine budgetedYields_ite (fun _ => budgetedYields_pure fun check hcheck => by cases hcheck)
    fun _ => budgetedYields_ite (fun _ => budgetedYields_ofResult fun _ herror => by cases herror)
      fun _ => ?_
  intro remaining found remaining' hrun check hcheck
  exact ⟨_, hkind, names, hnames, yields_suffixLoop algorithm geometry width names names.size 0 []
    (fun _ hnil => by cases hnil) remaining found remaining' hrun check hcheck⟩

theorem yields_checkSuffixes (geometry : BlockGeometry) (kinds : List (String × String × Nat))
    (hkinds : ∀ kind ∈ kinds, kind ∈ blockSuffixes) :
    BudgetedYields (fun found => ∀ check ∈ found, c.ChecksBlocks id check)
      (c.checkSuffixes id geometry kinds) := by
  induction kinds with
  | nil => exact budgetedYields_pure fun check hcheck => by cases hcheck
  | cons kind kinds ih =>
    refine (yields_checkSuffix geometry (hkinds kind List.mem_cons_self)).bind fun checks hchecks => ?_
    refine (ih fun kind hkind => hkinds kind (List.mem_cons_of_mem _ hkind)).bind fun rest hrest => ?_
    refine budgetedYields_pure fun check hcheck => ?_
    rcases List.mem_append.mp hcheck with hfirst | hlater
    · exact hchecks check hfirst
    · exact hrest check hlater

theorem yields_pairedBlockLoop (md5Name sha256Name : String) (geometry : BlockGeometry)
    (md5 sha256 : Bytes) (bevy : Nat) (verified : Option PairedBlockDigests) (fuel n : Nat)
    (checks : IntegrityCheck × IntegrityCheck) :
    BudgetedYields (fun found => found.1.referenceSource = checks.1.referenceSource ∧
        found.2.referenceSource = checks.2.referenceSource)
      (c.pairedBlockLoop id md5Name sha256Name geometry md5 sha256 bevy verified fuel n checks) := by
  induction fuel generalizing n checks with
  | zero => exact budgetedYields_pure ⟨rfl, rfl⟩
  | succ fuel ih =>
    refine budgetedYields_after fun _ => budgetedYields_after fun _ =>
      budgetedYields_after fun _ => budgetedYields_after fun _ =>
        budgetedYields_after fun bytes => ?_
    have hrest := ih (n + 1) (noteBlock checks.1 (c.pairedOutcomes id md5Name sha256Name md5 sha256
      n (bevy * geometry.per + n) verified bytes).1 (bevy * geometry.per + n)
        ((bevy * geometry.per + n) * geometry.chunk),
      noteBlock checks.2 (c.pairedOutcomes id md5Name sha256Name md5 sha256 n
        (bevy * geometry.per + n) verified bytes).2 (bevy * geometry.per + n)
        ((bevy * geometry.per + n) * geometry.chunk))
    dsimp only at hrest
    rw [referenceSource_noteBlock, referenceSource_noteBlock] at hrest
    exact hrest

theorem yields_pairedLoop (geometry : BlockGeometry) (md5Names sha256Names : TreeMap Nat String)
    (verified : Option PairedBlockDigests) (fuel bevy : Nat)
    (checks : List IntegrityCheck × List IntegrityCheck)
    (hmd5 : ∀ check ∈ checks.1, ChecksMember md5Names check)
    (hsha256 : ∀ check ∈ checks.2, ChecksMember sha256Names check) :
    BudgetedYields (fun found => ∀ check ∈ found,
        ChecksMember md5Names check ∨ ChecksMember sha256Names check)
      (c.pairedLoop id geometry md5Names sha256Names verified fuel bevy checks) := by
  induction fuel generalizing bevy checks with
  | zero =>
    refine budgetedYields_pure fun check hcheck => ?_
    rcases List.mem_append.mp hcheck with hfirst | hlater
    · exact .inl (hmd5 check hfirst)
    · exact .inr (hsha256 check hlater)
  | succ fuel ih =>
    refine (budgetedYields_ofResult fun found hfound => mem_values_of_recordedBlocks hfound).bind
      fun found hname => ?_
    refine (budgetedYields_ofResult fun found hfound => mem_values_of_recordedBlocks hfound).bind
      fun found' hname' => ?_
    refine (yields_pairedBlockLoop _ _ _ _ _ _ _ _ _ _).bind fun pair hpair => ih _ _ ?_ ?_
    · intro other hother
      rcases List.mem_append.mp hother with hold | hnew
      · exact hmd5 other hold
      · rw [List.mem_singleton] at hnew
        subst hnew
        unfold ChecksMember
        rw [hpair.1]
        exact hname
    · intro other hother
      rcases List.mem_append.mp hother with hold | hnew
      · exact hsha256 other hold
      · rw [List.mem_singleton] at hnew
        subst hnew
        unfold ChecksMember
        rw [hpair.2]
        exact hname'

/-- The checks of blocks are about members with block digests. -/
theorem yields_checkBlocks (verified : Option PairedBlockDigests) :
    BudgetedYields (fun found => ∀ check ∈ found, c.ChecksBlocks id check)
      (c.checkBlocks id verified) := by
  refine budgetedYields_after fun geometry => ?_
  refine (budgetedYields_ofResult (P := fun names => c.blockNames id "md5" = .ok names)
    fun names hnames => hnames).bind fun md5Names hmd5 => ?_
  refine (budgetedYields_ofResult (P := fun names => c.blockNames id "sha256" = .ok names)
    fun names hnames => hnames).bind fun sha256Names hsha256 => ?_
  refine budgetedYields_ite (fun _ => ?_) fun _ =>
    yields_checkSuffixes geometry blockSuffixes fun _ hkind => hkind
  refine budgetedYields_after fun _ => budgetedYields_after fun _ => ?_
  intro remaining found remaining' hrun check hcheck
  rcases yields_pairedLoop geometry md5Names sha256Names verified geometry.bevies 0 ([], [])
    (fun _ hnil => by cases hnil) (fun _ hnil => by cases hnil) remaining found remaining' hrun check
    hcheck with hmember | hmember
  · exact ⟨("md5", "MD5", 16), by simp [blockSuffixes], md5Names, hmd5, hmember⟩
  · exact ⟨("sha256", "SHA256", 32), by simp [blockSuffixes], sha256Names, hsha256, hmember⟩

/-! ## Subjects -/

/-- What a subject contributes besides the checks of its structural references. -/
def ChecksStorage (c : Container) (id : String) (check : IntegrityCheck) : Prop :=
  check.expected = none ∨ check.referenceSource = "block hashes" ∨ c.ChecksBlocks id check

theorem streamChecks_spec {remaining : Nat} {verified : Option PairedBlockDigests}
    {found : List IntegrityCheck × Nat}
    (h : (c.streamChecks id remaining verified).eval (Program.undisturbed c.answer) = .ok found) :
    ∀ check ∈ found.1, c.ChecksStorage id check := by
  rw [streamChecks, Program.eval_ite] at h
  by_cases hstream : c.hasType id "ImageStream" = true
  · rw [if_pos hstream, Program.eval_bind, bind_eq_ok] at h
    obtain ⟨⟨r, remaining'⟩, hrun, h⟩ := h
    cases r with
    | ok checks =>
      dsimp only at h
      rw [Program.eval_ite] at h
      by_cases habsent : checks = [] ∧
          ¬ (c.properties id).any fun p => isProperty p.predicate "hash"
      · rw [if_pos habsent] at h
        cases h
        intro check hcheck
        rw [List.mem_singleton] at hcheck
        subst hcheck
        exact .inl rfl
      · rw [if_neg habsent] at h
        cases h
        exact fun check hcheck =>
          .inr (.inr (yields_checkBlocks verified remaining checks remaining' hrun check hcheck))
    | error e =>
      cases e <;> cases h
      all_goals
        intro check hcheck
        rw [List.mem_singleton] at hcheck
        subst hcheck
        exact .inr (.inl rfl)
  · rw [if_neg hstream] at h
    cases h
    exact fun check hcheck => by cases hcheck

theorem expected_of_mapAbsences {absences : List IntegrityCheck}
    (h : c.mapAbsences id = .ok absences) : ∀ check ∈ absences, check.expected = none := by
  unfold mapAbsences at h
  dsimp only at h
  split at h
  · rw [bind_eq_ok] at h
    obtain ⟨path, -, h⟩ := h
    cases h
    intro check hcheck
    obtain ⟨key, -, rfl⟩ := List.mem_map.mp hcheck
    rfl
  · cases h
    exact fun check hcheck => by cases hcheck

/-- What the subject contributes to the checks. -/
def SubjectFindings (c : Container) (id : String) (checks : List IntegrityCheck) : Prop :=
  ∃ rest, (∀ check ∈ rest, c.ChecksStorage id check) ∧
    checks = ((c.properties id).filter (c.isStructural id)).map (c.structuralCheck id) ++ rest

theorem subjectStep_spec {blocks : TreeMap String PairedBlockDigests}
    {before after : Nat × List IntegrityCheck}
    (h : (c.subjectStep blocks before id).eval (Program.undisturbed c.answer) = .ok after) :
    ∃ checks, c.SubjectFindings id checks ∧ after.2 = before.2 ++ checks := by
  rw [subjectStep, Program.eval_bind, bind_eq_ok] at h
  obtain ⟨_, -, h⟩ := h
  dsimp only at h
  rw [Program.eval_bind, Program.eval_lift, bind_eq_ok] at h
  obtain ⟨absences, habsences, h⟩ := h
  rw [Program.eval_bind, bind_eq_ok] at h
  obtain ⟨⟨checks, remaining⟩, hchecks, h⟩ := h
  cases h
  refine ⟨_, ⟨absences ++ checks, fun check hcheck => ?_, rfl⟩, by simp [List.append_assoc]⟩
  rcases List.mem_append.mp hcheck with habsent | hblock
  · exact .inl (expected_of_mapAbsences habsences check habsent)
  · exact streamChecks_spec hchecks check hblock

/-- What the loop over the subjects adds. -/
theorem subjectSteps_spec {blocks : TreeMap String PairedBlockDigests} {ids : List String}
    {before after : Nat × List IntegrityCheck}
    (h : (ids.foldlM (c.subjectStep blocks) before).eval (Program.undisturbed c.answer) =
      .ok after) :
    ∃ findings, List.Forall₂ c.SubjectFindings ids findings ∧
      after.2 = before.2 ++ findings.flatten := by
  induction ids generalizing before with
  | nil =>
    cases h
    exact ⟨[], .nil, by simp⟩
  | cons id ids ih =>
    rw [List.foldlM_cons, Program.eval_bind, bind_eq_ok] at h
    obtain ⟨middle, hstep, h⟩ := h
    obtain ⟨checks, hchecks, happend⟩ := subjectStep_spec hstep
    obtain ⟨findings, hfindings, hafter⟩ := ih h
    refine ⟨checks :: findings, .cons hchecks hfindings, ?_⟩
    rw [hafter, happend, List.flatten_cons, List.append_assoc]

/-- The checks of a report: those of the data resources, and those of the subjects. -/
theorem verifyAll_spec {expected : Option String} {report : ContainerVerification}
    (h : (c.verifyAll expected).eval (Program.undisturbed c.answer) = .ok report) :
    ∃ linear subjects, List.Forall₂ c.LinearFindings c.dataResources linear ∧
      List.Forall₂ c.SubjectFindings c.graph.keys subjects ∧
      report.checks = linear.flatten ++ subjects.flatten := by
  rw [verifyAll, Program.eval_bind, bind_eq_ok] at h
  obtain ⟨_, -, h⟩ := h
  dsimp only at h
  rw [Program.eval_bind, bind_eq_ok] at h
  obtain ⟨linear, hlinear, h⟩ := h
  rw [Program.eval_bind, bind_eq_ok] at h
  obtain ⟨⟨remaining, checks⟩, hsubjects, h⟩ := h
  cases h
  have hnew : Progression.Sound c { remaining := c.limits.verificationBytes } :=
    ⟨fun _ hnil => (by cases hnil), fun key index hindex => by simp at hindex⟩
  obtain ⟨found, hfound, hchecks⟩ := linearSteps_spec hnew hlinear
  obtain ⟨subjects, hsubject, hafter⟩ := subjectSteps_spec hsubjects
  refine ⟨found, subjects, hfound, hsubject, ?_⟩
  dsimp only at hafter ⊢
  rw [hafter, hchecks]
  rfl

end Container

end EwfImage.Aff4

import EwfImage.Aff4.Findings
import EwfImage.Aff4.Open
import Mathlib.Data.List.Nodup
import Mathlib.Data.List.Perm.Subperm

/-!
# The recorded digests in a report

A report has a check for every recorded digest that a verification visits: the linear digests
of the resources that it traverses and the structural ones of every subject. A linear digest
of any other subject is in no report.

The main result is `accounts_iff`, about every container, every history before the verification
and every listener. The inventory of a report has all recorded digests, each with its own check,
and where everything matches each of them was recomputed from the bytes it is about, exactly
when each recorded digest is visited. `recorded_subperm_iff` and `recomputed_of_allMatch` are
the two halves. Resources that are typed as folders are not traversed; `not_accounts` is a
container with a digest of one. The digest functions and the decoders are the `Libraries` of the
container.
-/

namespace EwfImage.Aff4

open Fallible LruCache Queries Slice Std

/-- The properties that record a digest. -/
def integrityKeys : List String := "hash" :: structuralKeys

def isIntegrity (predicate : String) : Bool := integrityKeys.any (isProperty predicate)

/-- What a property records. -/
def Property.record (p : Property) : String × String := (p.predicate, p.value)

/-- What the checks of a resource say is recorded. -/
def inventory (checks : List IntegrityCheck) (id : String) : List (String × String) :=
  (checks.filter fun check => check.resource = id ∧ isIntegrity check.referenceSource).filterMap
    fun check => check.expected.map (check.referenceSource, ·)

theorem inventory_append (checks checks' : List IntegrityCheck) (id : String) :
    inventory (checks ++ checks') id = inventory checks id ++ inventory checks' id := by
  rw [inventory, List.filter_append, List.filterMap_append]
  rfl

theorem inventory_eq_nil {checks : List IntegrityCheck} {id : String}
    (h : ∀ check ∈ checks, check.resource ≠ id ∨ check.expected = none ∨
      isIntegrity check.referenceSource = false) : inventory checks id = [] := by
  rw [inventory, List.filterMap_eq_nil_iff]
  intro check hcheck
  rw [List.mem_filter, decide_eq_true_eq] at hcheck
  obtain ⟨hmem, hresource, hintegrity⟩ := hcheck
  rcases h check hmem with hother | hnone | hunkeyed
  · exact absurd hresource hother
  · rw [hnone]
    rfl
  · rw [hunkeyed] at hintegrity
    cases hintegrity

/-- Checks of recorded digests, one for each. -/
theorem inventory_map {properties : List Property} {check : Property → IntegrityCheck}
    {id : String} (h : ∀ p ∈ properties, (check p).resource = id ∧
      (check p).referenceSource = p.predicate ∧ (check p).expected = some p.value ∧
      isIntegrity p.predicate) (other : String) :
    inventory (properties.map check) other =
      if id = other then properties.map Property.record else [] := by
  by_cases hsame : id = other
  · subst hsame
    rw [if_pos rfl]
    induction properties with
    | nil => rfl
    | cons p properties ih =>
      obtain ⟨hresource, hsource, hexpected, hintegrity⟩ := h p List.mem_cons_self
      have hrest := ih fun q hq => h q (List.mem_cons_of_mem _ hq)
      have hkeep : decide ((check p).resource = id ∧ isIntegrity (check p).referenceSource) = true := by
        rw [decide_eq_true_eq, hsource]
        exact ⟨hresource, hintegrity⟩
      rw [inventory] at hrest ⊢
      rw [List.map_cons, List.filter_cons, if_pos hkeep, List.filterMap_cons, hrest, hexpected,
        hsource]
      rfl
  · rw [if_neg hsame]
    refine inventory_eq_nil fun found hfound => .inl ?_
    obtain ⟨p, hp, rfl⟩ := List.mem_map.mp hfound
    rw [(h p hp).1]
    exact hsame

/-- The inventory of what is found for distinct resources. -/
theorem inventory_flatten {R : String → List IntegrityCheck → Prop} {ids : List String}
    {findings : List (List IntegrityCheck)} (hfindings : List.Forall₂ R ids findings)
    (hids : ids.Nodup) (id : String) (found : List (String × String))
    (hR : ∀ other checks, R other checks →
      inventory checks id = if other = id then found else []) :
    inventory findings.flatten id = if id ∈ ids then found else [] := by
  induction hfindings with
  | nil => rfl
  | @cons other checks ids findings hfirst hrest ih =>
    rw [List.nodup_cons] at hids
    rw [List.flatten_cons, inventory_append, hR other checks hfirst, ih hids.2]
    by_cases hsame : other = id
    · subst hsame
      rw [if_pos rfl, if_neg hids.1, if_pos List.mem_cons_self, List.append_nil]
    · have hmem : id ∈ other :: ids ↔ id ∈ ids := by
        rw [List.mem_cons]
        exact or_iff_right fun hid => hsame hid.symm
      rw [if_neg hsame, List.nil_append]
      by_cases hid : id ∈ ids
      · rw [if_pos hid, if_pos (hmem.mpr hid)]
      · rw [if_neg hid, if_neg fun hin => hid (hmem.mp hin)]

namespace Container

variable {c : Container} {id : String}

/-! ## Members with block digests -/

theorem last_of_isIntegrity {predicate : String} (h : isIntegrity predicate = true) :
    predicate.toList.getLast? = some 'h' := by
  obtain ⟨key, hkey, hproperty⟩ := List.any_eq_true.mp h
  obtain ⟨space, -, hstrip⟩ := List.any_eq_true.mp hproperty
  have hsplit := toList_of_stripPrefix (of_decide_eq_true hstrip)
  have hall : ∀ key ∈ integrityKeys, key.toList.getLast? = some 'h' := by decide
  have hlast := hall key hkey
  rw [hsplit, List.getLast?_append, hlast]
  rfl

theorem last_of_blockOrdinal {suffix tail : String} {number : Nat} {last : Char}
    (hsuffix : suffix.toList.getLast? = some last) (h : blockOrdinal suffix tail = some number) :
    tail.toList.getLast? = some last := by
  unfold blockOrdinal at h
  obtain ⟨digits, hdigits, -⟩ := Option.bind_eq_some_iff.mp h
  have hending : ∃ start : String,
      stripSuffix tail (start ++ suffix) = some digits := by
    cases hfirst : stripSuffix tail (".blockHash." ++ suffix) with
    | some found =>
      rw [hfirst] at hdigits
      cases hdigits
      exact ⟨".blockHash.", hfirst⟩
    | none =>
      rw [hfirst] at hdigits
      exact ⟨".", hdigits⟩
  obtain ⟨start, hstrip⟩ := hending
  rw [toList_of_stripSuffix hstrip, String.toList_append, List.getLast?_append,
    List.getLast?_append, hsuffix]
  rfl

/-- No member with block digests is named as a property that records a digest. -/
theorem isIntegrity_of_checksBlocks {check : IntegrityCheck} (h : c.ChecksBlocks id check) :
    isIntegrity check.referenceSource = false := by
  obtain ⟨⟨suffix, algorithm, width⟩, hkind, names, hnames, hmember⟩ := h
  obtain ⟨last, hlast, hother⟩ : ∃ last, suffix.toList.getLast? = some last ∧ last ≠ 'h' := by
    have hall : ∀ kind ∈ blockSuffixes, ∃ last, kind.1.toList.getLast? = some last ∧ last ≠ 'h' := by
      intro kind hkind
      simp only [blockSuffixes, List.mem_cons, List.not_mem_nil, or_false] at hkind
      rcases hkind with rfl | rfl | rfl | rfl | rfl
      · exact ⟨'5', by decide, by decide⟩
      · exact ⟨'1', by decide, by decide⟩
      · exact ⟨'6', by decide, by decide⟩
      · exact ⟨'2', by decide, by decide⟩
      · exact ⟨'b', by decide, by decide⟩
    exact hall _ hkind
  rw [blockNames, bind_eq_ok] at hnames
  obtain ⟨path, -, hrun⟩ := hnames
  have hends : ∀ (number : Nat) (name : String), names[number]? = some name →
      name.toList.getLast? = some last := by
    refine foldlM_invariant (I := fun names : TreeMap Nat String => ∀ (number : Nat)
      (name : String), names[number]? = some name → name.toList.getLast? = some last)
      (fun before name after hbefore _ hstep => ?_) ?_ hrun
    · dsimp only at hstep
      cases htail : (stripPrefix name (path ++ "/")).bind (blockOrdinal suffix) with
      | none =>
        rw [htail] at hstep
        cases hstep
        exact hbefore
      | some number =>
        rw [htail, bind_eq_ok] at hstep
        obtain ⟨_, -, hstep⟩ := hstep
        cases hstep
        intro number' name' hname'
        rw [TreeMap.getElem?_insert] at hname'
        by_cases hsame : compare number number' = .eq
        · rw [if_pos hsame, Option.some.injEq] at hname'
          subst hname'
          obtain ⟨tail, hstrip, hordinal⟩ := Option.bind_eq_some_iff.mp htail
          rw [toList_of_stripPrefix hstrip, List.getLast?_append,
            last_of_blockOrdinal hlast hordinal]
          rfl
        · rw [if_neg hsame] at hname'
          exact hbefore number' name' hname'
    · intro number name hnone
      simp at hnone
  unfold ChecksMember at hmember
  rw [values_eq_map_toList] at hmember
  obtain ⟨⟨number, name⟩, hentry, hname⟩ := List.mem_map.mp hmember
  have hcheck := hends number name (TreeMap.mem_toList_iff_getElem?_eq_some.mp hentry)
  by_contra hintegrity
  rw [Bool.not_eq_false] at hintegrity
  have hh := last_of_isIntegrity hintegrity
  dsimp only at hname
  rw [← hname, hcheck, Option.some.injEq] at hh
  exact hother hh

/-! ## The inventory of a report -/

/-- The properties of a resource that record a digest. -/
def recorded (c : Container) (id : String) : List Property :=
  (c.properties id).filter fun p => isIntegrity p.predicate

/-- Whether a property is a linear digest of a resource that a verification traverses. -/
def isTraversed (c : Container) (id : String) (p : Property) : Bool :=
  decide (id ∈ c.dataResources) && isProperty p.predicate "hash" &&
    !startsWith (algorithm p) "blockMapHash"

/-- Whether a verification visits a property: as a linear or as a structural digest. -/
def isVisited (c : Container) (id : String) (p : Property) : Bool :=
  c.isTraversed id p || c.isStructural id p

theorem isIntegrity_of_hash {predicate : String} (h : isProperty predicate "hash" = true) :
    isIntegrity predicate = true := by
  unfold isIntegrity integrityKeys
  rw [List.any_cons, h, Bool.true_or]

theorem isIntegrity_of_isStructural {p : Property} (h : c.isStructural id p = true) :
    isIntegrity p.predicate = true := by
  unfold isStructural at h
  rw [Bool.or_eq_true, Bool.and_eq_true] at h
  rcases h with ⟨hhash, -⟩ | hkey
  · exact isIntegrity_of_hash hhash
  · unfold isIntegrity integrityKeys
    rw [List.any_cons, hkey, Bool.or_true]

theorem linearCheck_spec (id : String) (verification : Option Verification)
    (error : Option String) (p : Property) :
    (linearCheck id verification error p).resource = id ∧
      (linearCheck id verification error p).referenceSource = p.predicate ∧
      (linearCheck id verification error p).expected = some p.value := by
  unfold linearCheck
  cases verification with
  | none => exact ⟨rfl, rfl, rfl⟩
  | some v =>
    dsimp only
    split
    · exact ⟨rfl, rfl, rfl⟩
    · exact ⟨rfl, rfl, rfl⟩

theorem structuralCheck_spec (id : String) (p : Property) :
    (c.structuralCheck id p).resource = id ∧
      (c.structuralCheck id p).referenceSource = p.predicate ∧
      (c.structuralCheck id p).expected = some p.value := by
  unfold structuralCheck
  cases c.structuralInput id p with
  | error e => exact ⟨rfl, rfl, rfl⟩
  | ok input => exact ⟨rfl, rfl, rfl⟩

/-- The checks of linear digests, and at most the remark that there are none. -/
theorem linearChecks_spec {verification : Option Verification} {error : Option String}
    {checks : List IntegrityCheck} (h : c.linearChecks id verification error = .ok checks) :
    ∃ rest, (∀ check ∈ rest, check.expected = none) ∧ checks =
      ((c.hashes id).filter fun p => ¬ startsWith (algorithm p) "blockMapHash").map
        (linearCheck id verification error) ++ rest := by
  unfold linearChecks at h
  dsimp only at h
  split at h
  · rw [bind_eq_ok] at h
    obtain ⟨inline, -, h⟩ := h
    cases hinline : inline.isNone with
    | true =>
      rw [hinline] at h
      cases h
      refine ⟨[absent id "linear file digest"], fun check hcheck => ?_, rfl⟩
      rw [List.mem_singleton] at hcheck
      rw [hcheck]
      rfl
    | false =>
      rw [hinline] at h
      cases h
      exact ⟨[], fun _ hnil => (by cases hnil), (List.append_nil _).symm⟩
  · cases h
    exact ⟨[], fun _ hnil => (by cases hnil), (List.append_nil _).symm⟩

theorem hashes_filter : ((c.hashes id).filter fun p => ¬ startsWith (algorithm p) "blockMapHash") =
    (c.properties id).filter fun p =>
      isProperty p.predicate "hash" && !startsWith (algorithm p) "blockMapHash" := by
  rw [hashes, List.filter_filter]
  refine List.filter_congr fun p _ => ?_
  rw [Bool.and_comm]
  cases startsWith (algorithm p) "blockMapHash" <;> rfl

theorem inventory_linearFindings {other : String} {checks : List IntegrityCheck}
    (h : c.LinearFindings other checks) : inventory checks id = if other = id then
      ((c.properties other).filter fun p =>
        isProperty p.predicate "hash" && !startsWith (algorithm p) "blockMapHash").map
          Property.record else [] := by
  obtain ⟨verification, error, -, hchecks⟩ := h
  obtain ⟨rest, hrest, rfl⟩ := linearChecks_spec hchecks
  rw [hashes_filter, inventory_append,
    inventory_eq_nil fun check hcheck => .inr (.inl (hrest check hcheck)), List.append_nil]
  refine inventory_map (fun p hp => ?_) id
  rw [List.mem_filter, Bool.and_eq_true] at hp
  obtain ⟨hresource, hsource, hexpected⟩ := linearCheck_spec other verification error p
  exact ⟨hresource, hsource, hexpected, isIntegrity_of_hash hp.2.1⟩

theorem inventory_subjectFindings {other : String} {checks : List IntegrityCheck}
    (h : c.SubjectFindings other checks) : inventory checks id = if other = id then
      ((c.properties other).filter (c.isStructural other)).map Property.record else [] := by
  obtain ⟨rest, hrest, rfl⟩ := h
  have hstorage : ∀ check ∈ rest, check.resource ≠ id ∨ check.expected = none ∨
      isIntegrity check.referenceSource = false := by
    intro check hcheck
    rcases hrest check hcheck with hnone | hdeclined | hblocks
    · exact .inr (.inl hnone)
    · refine .inr (.inr ?_)
      rw [hdeclined]
      decide
    · exact .inr (.inr (isIntegrity_of_checksBlocks hblocks))
  rw [inventory_append, inventory_eq_nil hstorage, List.append_nil]
  refine inventory_map (fun p hp => ?_) id
  rw [List.mem_filter] at hp
  obtain ⟨hresource, hsource, hexpected⟩ := c.structuralCheck_spec other p
  exact ⟨hresource, hsource, hexpected, isIntegrity_of_isStructural hp.2⟩

theorem nodup_keys (graph : Graph) : graph.keys.Nodup :=
  (TreeMap.distinct_keys (t := graph)).imp fun hne hsame => hne (by rw [hsame, compare_self])

theorem nodup_dataResources : c.dataResources.Nodup :=
  ((nodup_keys c.graph).filter _).filter _

theorem properties_eq_nil (h : id ∉ c.graph.keys) : c.properties id = [] := by
  unfold properties
  rw [TreeMap.mem_keys] at h
  exact TreeMap.getD_eq_fallback h

/-- What is in the inventory of a report. -/
theorem inventory_verifyAll {expected : Option String} {report : ContainerVerification}
    (h : (c.verifyAll expected).eval (Program.undisturbed c.answer) = .ok report) (id : String) :
    inventory report.checks id =
      ((c.properties id).filter (c.isTraversed id)).map Property.record ++
        ((c.properties id).filter (c.isStructural id)).map Property.record := by
  obtain ⟨linear, subjects, hlinear, hsubjects, hchecks⟩ := verifyAll_spec h
  have hlinears := inventory_flatten hlinear nodup_dataResources id _ fun other checks hfound => by
    rw [inventory_linearFindings hfound]
    by_cases hsame : other = id
    · subst hsame
      rfl
    · rw [if_neg hsame, if_neg hsame]
  have hstructural := inventory_flatten hsubjects (nodup_keys c.graph) id _
    fun other checks hfound => by
      rw [inventory_subjectFindings hfound]
      by_cases hsame : other = id
      · subst hsame
        rfl
      · rw [if_neg hsame, if_neg hsame]
  rw [hchecks, inventory_append, hlinears, hstructural]
  congr 1
  · by_cases hdata : id ∈ c.dataResources
    · rw [if_pos hdata]
      congr 1
      refine List.filter_congr fun p _ => ?_
      unfold isTraversed
      rw [decide_eq_true hdata, Bool.true_and]
    · have hnone : (c.properties id).filter (c.isTraversed id) = [] := by
        rw [List.filter_eq_nil_iff]
        intro p _
        unfold isTraversed
        rw [decide_eq_false hdata, Bool.false_and, Bool.false_and]
        exact Bool.false_ne_true
      rw [if_neg hdata, hnone, List.map_nil]
  · by_cases hkey : id ∈ c.graph.keys
    · rw [if_pos hkey]
    · rw [if_neg hkey, properties_eq_nil hkey]
      rfl

theorem subperm_map {α β : Type} {xs ys : List α} (f : α → β) (h : xs.Subperm ys) :
    (xs.map f).Subperm (ys.map f) := by
  obtain ⟨zs, hperm, hsub⟩ := h
  exact ⟨zs.map f, hperm.map f, hsub.map f⟩

/-- Each recorded digest has a check of its own exactly when each of them is visited. -/
theorem recorded_subperm_iff :
    ((c.recorded id).map Property.record).Subperm
        (((c.properties id).filter (c.isTraversed id)).map Property.record ++
          ((c.properties id).filter (c.isStructural id)).map Property.record) ↔
      ∀ p ∈ c.recorded id, c.isVisited id p = true := by
  constructor
  · intro hsub
    by_contra hnot
    push Not at hnot
    obtain ⟨p, hp, hmissed⟩ := hnot
    obtain ⟨hproperty, hintegrity⟩ := List.mem_filter.mp hp
    rw [← Bool.eq_false_iff, isVisited, Bool.or_eq_false_iff] at hmissed
    obtain ⟨htraversed, hstructural⟩ := hmissed
    -- a missed property is a linear digest of a resource that is not traversed
    have hkind : isProperty p.predicate "hash" = true ∧
        startsWith (algorithm p) "blockMapHash" = false := by
      unfold isStructural at hstructural
      rw [Bool.or_eq_false_iff] at hstructural
      unfold isIntegrity integrityKeys at hintegrity
      rw [List.any_cons, hstructural.2, Bool.or_false] at hintegrity
      rw [hintegrity, Bool.true_and, Bool.or_eq_false_iff] at hstructural
      exact ⟨hintegrity, hstructural.1.2⟩
    have hdata : id ∉ c.dataResources := by
      intro hmem
      unfold isTraversed at htraversed
      rw [decide_eq_true hmem, hkind.1, hkind.2] at htraversed
      cases htraversed
    have hnone : (c.properties id).filter (c.isTraversed id) = [] := by
      rw [List.filter_eq_nil_iff]
      intro q _
      unfold isTraversed
      rw [decide_eq_false hdata, Bool.false_and, Bool.false_and]
      exact Bool.false_ne_true
    rw [hnone, List.map_nil, List.nil_append] at hsub
    have hle := hsub.length_le
    rw [List.length_map, List.length_map] at hle
    have hsubset : (c.properties id).filter (c.isStructural id) =
        (c.recorded id).filter (c.isStructural id) := by
      rw [recorded, List.filter_filter]
      refine List.filter_congr fun q _ => ?_
      cases hq : c.isStructural id q with
      | true => rw [isIntegrity_of_isStructural hq, Bool.true_and]
      | false => rw [Bool.false_and]
    have hlt : ((c.recorded id).filter (c.isStructural id)).length < (c.recorded id).length :=
      List.length_filter_lt_length_iff_exists.mpr ⟨p, hp, by rw [hstructural]; exact Bool.false_ne_true⟩
    rw [hsubset] at hle
    omega
  · intro hall
    have hsplit := (List.filter_append_perm (c.isTraversed id) (c.recorded id)).symm
    rw [← List.map_append]
    refine subperm_map _ (hsplit.subperm.trans (List.Subperm.append ?_ ?_))
    · exact (List.filter_sublist.filter _).subperm
    · have hrest : (c.recorded id).filter (fun p => !c.isTraversed id p) =
          ((c.recorded id).filter (fun p => !c.isTraversed id p)).filter (c.isStructural id) := by
        symm
        rw [List.filter_eq_self]
        intro p hp
        obtain ⟨hrecorded, hnot⟩ := List.mem_filter.mp hp
        have hvisited := hall p hrecorded
        rw [isVisited, Bool.or_eq_true] at hvisited
        rcases hvisited with htraversed | hstructural
        · rw [htraversed] at hnot
          cases hnot
        · exact hstructural
      rw [hrest]
      exact ((List.filter_sublist.trans List.filter_sublist).filter _).subperm

/-! ## What a match means -/

/-- The bytes that a recorded digest is compared with, and the algorithm. -/
def Covers (c : Container) (id : String) (p : Property) (bytes : Bytes) (method : String) : Prop :=
  c.structuralInput id p = .ok (bytes, method) ∨
    method = algorithm p ∧ ∃ key other pieces, c.backing 32 [] id = .ok key ∧
      c.backing 32 [] other = .ok key ∧
      (c.walkBytes other).eval (Program.undisturbed c.answer) = .ok pieces ∧
      bytes = pieces.flatten

/-- The recorded digest is that of bytes of the container. -/
def Recomputed (c : Container) (id : String) (p : Property) : Prop :=
  ∃ bytes method digest, c.Covers id p bytes method ∧
    c.libraries.digest method bytes = some digest ∧ eqIgnoreAsciiCase (hex digest) p.value = true

theorem recomputed_of_structuralCheck {p : Property}
    (h : (c.structuralCheck id p).outcome = .match) : c.Recomputed id p := by
  unfold structuralCheck at h
  cases hinput : c.structuralInput id p with
  | error e =>
    rw [hinput] at h
    unfold declined at h
    cases e <;> cases h
  | ok input =>
    obtain ⟨bytes, method⟩ := input
    rw [hinput] at h
    dsimp only [Libraries.compare] at h
    cases hdigest : c.libraries.digest method bytes with
    | none =>
      rw [hdigest] at h
      cases h
    | some digest =>
      rw [hdigest] at h
      dsimp only [Option.map_some, Libraries.outcome] at h
      split at h
      · cases h
      · split at h
        · exact ⟨bytes, method, digest, .inl hinput, hdigest, ‹_›⟩
        · cases h

theorem recomputed_of_linearCheck {p : Property} {verification : Option Verification}
    (error : Option String) (hdigested : ∀ v, verification = some v → c.Digested id v)
    (h : (linearCheck id verification error p).outcome = .match) : c.Recomputed id p := by
  unfold linearCheck at h
  cases verification with
  | none => cases h
  | some v =>
    obtain ⟨key, other, pieces, hkey, hother, hwalk, hdigests⟩ := hdigested v rfl
    have hcovers : c.Covers id p pieces.flatten (algorithm p) :=
      .inr ⟨rfl, key, other, pieces, hkey, hother, hwalk, rfl⟩
    have hfound : ∀ value digest, c.libraries.digest (algorithm p) pieces.flatten = some digest →
        value = hex digest → eqIgnoreAsciiCase value p.value = true → c.Recomputed id p := by
      rintro _ digest hdigest rfl hsame
      exact ⟨pieces.flatten, algorithm p, digest, hcovers, hdigest, hsame⟩
    dsimp only at h
    split at h
    · cases h
    · rename_i value hmatch
      have hvalue : ∃ digest,
          c.libraries.digest (algorithm p) pieces.flatten = some digest ∧ value = hex digest := by
        unfold Libraries.digest
        split at hmatch
        all_goals first
          | contradiction
          | (cases hmatch; rename_i hmethod; rw [hmethod])
        · exact ⟨_, rfl, hdigests.md5⟩
        · exact ⟨_, rfl, hdigests.sha1⟩
        · exact ⟨_, rfl, hdigests.sha256⟩
        · exact ⟨_, rfl, hdigests.sha512⟩
        · exact ⟨_, rfl, hdigests.blake2b⟩
        · exact ⟨_, rfl, hdigests.blake2b⟩
      obtain ⟨digest, hdigest, hhex⟩ := hvalue
      dsimp only at h
      split at h
      · cases h
      · split at h
        · exact hfound value digest hdigest hhex ‹_›
        · cases h

theorem exists_of_forall₂ {α β : Type} {R : α → β → Prop} {xs : List α} {ys : List β}
    (h : List.Forall₂ R xs ys) {x : α} (hx : x ∈ xs) : ∃ y ∈ ys, R x y := by
  induction h with
  | nil => cases hx
  | @cons first y xs ys hfirst hrest ih =>
    rcases List.mem_cons.mp hx with rfl | hlater
    · exact ⟨y, List.mem_cons_self, hfirst⟩
    · obtain ⟨y', hy', hR⟩ := ih hlater
      exact ⟨y', List.mem_cons_of_mem _ hy', hR⟩

/-- Where everything in a report matches, each visited digest is that of bytes of the container. -/
theorem recomputed_of_allMatch {expected : Option String} {report : ContainerVerification}
    (h : (c.verifyAll expected).eval (Program.undisturbed c.answer) = .ok report)
    (hmatch : report.allMatch = true) {p : Property} (hp : p ∈ c.properties id)
    (hvisited : c.isVisited id p = true) : c.Recomputed id p := by
  obtain ⟨linear, subjects, hlinear, hsubjects, hchecks⟩ := verifyAll_spec h
  have hall : ∀ check ∈ report.checks, check.outcome = .match := by
    unfold ContainerVerification.allMatch at hmatch
    rw [Bool.and_eq_true, List.all_eq_true] at hmatch
    exact fun check hcheck => of_decide_eq_true (hmatch.2 check hcheck)
  rw [isVisited, Bool.or_eq_true] at hvisited
  rcases hvisited with htraversed | hstructural
  · unfold isTraversed at htraversed
    rw [Bool.and_eq_true, Bool.and_eq_true, decide_eq_true_eq] at htraversed
    obtain ⟨⟨hdata, hhash⟩, hplain⟩ := htraversed
    obtain ⟨checks, hmem, verification, error, hdigested, hfound⟩ := exists_of_forall₂ hlinear hdata
    obtain ⟨rest, -, rfl⟩ := linearChecks_spec hfound
    refine recomputed_of_linearCheck error hdigested (hall _ ?_)
    rw [hchecks]
    refine List.mem_append_left _ (List.mem_flatten.mpr ⟨_, hmem, List.mem_append_left _ ?_⟩)
    refine List.mem_map_of_mem ?_
    rw [hashes_filter, List.mem_filter, hhash, hplain]
    exact ⟨hp, rfl⟩
  · have hkey : id ∈ c.graph.keys := by
      by_contra hnone
      rw [properties_eq_nil hnone] at hp
      cases hp
    obtain ⟨checks, hmem, rest, -, rfl⟩ := exists_of_forall₂ hsubjects hkey
    refine recomputed_of_structuralCheck (hall _ ?_)
    rw [hchecks]
    refine List.mem_append_right _ (List.mem_flatten.mpr ⟨_, hmem, List.mem_append_left _ ?_⟩)
    exact List.mem_map_of_mem (List.mem_filter.mpr ⟨hp, hstructural⟩)

/-- What a report owes to the recorded digests: a check of its own for each of them, and, if
everything matches, that each is the digest of bytes of the container. -/
def Accounts (c : Container) (report : ContainerVerification) : Prop :=
  ∀ id, ((c.recorded id).map Property.record).Subperm (inventory report.checks id) ∧
    (report.allMatch → ∀ p ∈ c.recorded id, c.Recomputed id p)

/-- After any history and for any listener, the report of a verification accounts for the recorded
digests exactly when every one of them is visited: as the linear digest of a resource that is
traversed, or as a structural one. -/
theorem accounts_iff (lru : Interface) (operations : List Operation)
    (expected : Option String) (listener : List Signal → Signal → Bool) {report : ContainerVerification}
    {s' : Caches lru × List Signal}
    (h : (c.verifyAll expected).run (Program.listen c.serve (hear listener))
      (c.cachesAfter lru operations, []) = .ok report s') :
    c.Accounts report ↔ ∀ id, ∀ p ∈ c.recorded id, c.isVisited id p = true := by
  have hcoherent := coherent_cachesAfter (c := c) lru operations
  have hreport := (((serves_answer c.admits_ownEntry).listen (hear listener)
    (stops_verifyAll expected)).ok (s := (c.cachesAfter lru operations, [])) hcoherent h).2
  have hinventory := inventory_verifyAll hreport
  constructor
  · intro haccounts id
    rw [← recorded_subperm_iff, ← hinventory id]
    exact (haccounts id).1
  · intro hvisited id
    refine ⟨?_, fun hmatch p hp => ?_⟩
    · rw [hinventory id]
      exact recorded_subperm_iff.mpr (hvisited id)
    · exact recomputed_of_allMatch hreport hmatch (List.mem_of_mem_filter hp) (hvisited id p hp)

/-! ## A digest of a folder -/

section Folder

def folderDocument : String :=
  "@prefix aff4: <http://aff4.org/Schema#> .\n" ++
    "<aff4://v/f> a aff4:Folder ; aff4:hash \"00\"^^aff4:MD5 .\n"

/-- The digest of the document, which `container.hashes` records. -/
def folderDigest : Bytes :=
  [160, 103, 174, 75, 54, 55, 135, 199, 65, 53, 124, 200, 113, 223, 60, 70, 131, 132, 188, 6, 176,
    156, 170, 127, 13, 253, 33, 168, 221, 245, 243, 72]

def folderHashes : String := "\x7b\"SHA256\":\"" ++ hex folderDigest ++ "\"\x7d"

def folderLibraries : Libraries :=
  { Libraries.plain (fun _ => folderDigest) [.typed "aff4://v/f" "Folder",
      ⟨.named "aff4://v/f", ns ++ "hash", .literal "00" (ns ++ "MD5") none⟩] with
    jsonDictionary := fun _ => .ok [("SHA256", hex folderDigest)] }

def folderArchive : ZipArchive :=
  .plain folderDocument [("container.hashes", utf8Bytes folderHashes)]

/-- What is asked of the container below. -/
def FolderFacts (c : Container) : Prop :=
  ((c.verifyAll none).eval (Program.undisturbed c.answer)).toOption.any (fun report =>
    report.allMatch && report.checks.all fun check => check.expected ≠ some "00") = true ∧
  (c.recorded "aff4://v/f").map Property.record = [(ns ++ "hash", "00")]

instance (c : Container) : Decidable (FolderFacts c) := inferInstanceAs (Decidable (_ ∧ _))

theorem exists_folder : ∃ c,
    openContainer folderLibraries folderArchive [] .unrestricted = .ok c ∧ FolderFacts c := by
  have hopens : (openContainer folderLibraries folderArchive [] .unrestricted).toOption.any
      (fun c => decide (FolderFacts c)) = true := by decide +kernel
  obtain ⟨c, hc, hfacts⟩ := (Option.any_eq_true ..).mp hopens
  exact ⟨c, toOption_eq_some.mp hc, of_decide_eq_true hfacts⟩

theorem exists_folder_report : ∃ c report s',
    openContainer folderLibraries folderArchive [] .unrestricted = .ok c ∧
      (c.verifyAll none).run (Program.listen c.serve (hear fun _ _ => false))
        (({} : Caches byRecency), []) = .ok report s' ∧ report.allMatch = true ∧
      (∀ check ∈ report.checks, check.expected ≠ some "00") ∧
      (c.recorded "aff4://v/f").map Property.record = [(ns ++ "hash", "00")] := by
  obtain ⟨c, hc, hreport, hrecorded⟩ := exists_folder
  have hserves : Serves (c.Coherent byRecency c.OwnEntry) c.serve c.answer :=
    serves_answer c.admits_ownEntry
  have hquiet := hserves.listen_silent (hear fun _ _ => false) fun _ _ => rfl
  obtain ⟨report, hverified, hfacts⟩ := (Option.any_eq_true ..).mp hreport
  rw [Bool.and_eq_true, List.all_eq_true] at hfacts
  obtain ⟨s', hs'⟩ := ((hquiet.run _).ok_iff (s := ({}, [])) (coherent_new c byRecency _)).mpr
    (toOption_eq_some.mp hverified)
  exact ⟨c, report, s', hc, hs', hfacts.1,
    fun check hcheck => of_decide_eq_true (hfacts.2 check hcheck), hrecorded⟩

/-- Everything matches in a report that does not mention the digest of the folder. -/
theorem not_accounts : ∃ c report s',
    openContainer folderLibraries folderArchive [] .unrestricted = .ok c ∧
      (c.verifyAll none).run (Program.listen c.serve (hear fun _ _ => false))
        (({} : Caches byRecency), []) = .ok report s' ∧ report.allMatch = true ∧
      ∃ p ∈ c.recorded "aff4://v/f", ∀ check ∈ report.checks, check.expected ≠ some p.value := by
  obtain ⟨c, report, s', hc, hrun, hmatch, hchecks, hrecorded⟩ := exists_folder_report
  refine ⟨c, report, s', hc, hrun, hmatch, ?_⟩
  obtain ⟨p, hp, hrecord⟩ := List.mem_map.mp (hrecorded ▸ List.mem_singleton_self (ns ++ "hash", "00"))
  refine ⟨p, hp, ?_⟩
  have hvalue : p.value = "00" := congrArg Prod.snd hrecord
  rw [hvalue]
  exact hchecks

theorem accounts_iff_folder : ∃ c report s',
    openContainer folderLibraries folderArchive [] .unrestricted = .ok c ∧
      (c.verifyAll none).run (Program.listen c.serve (hear fun _ _ => false))
        (({} : Caches byRecency), []) = .ok report s' ∧
      (c.Accounts report ↔ ∀ id, ∀ p ∈ c.recorded id, c.isVisited id p = true) := by
  obtain ⟨c, report, s', hc, hrun, -⟩ := exists_folder_report
  exact ⟨c, report, s', hc, hrun, accounts_iff byRecency [] none (fun _ _ => false) hrun⟩

end Folder

end Container

end EwfImage.Aff4

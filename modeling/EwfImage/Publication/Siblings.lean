import EwfImage.Discovery
import EwfImage.Publication.Feasible

/-!
# Files next to a segment set

The stale segments of a publication are chosen by their names alone, so an ordinary
file such as `case.TXT` next to `case.E01` counts as one: it is removed when output
may be replaced and stops the publication when it may not. The discovery of segments,
which looks at signatures, and the checks of an acquisition are compared with the
publication on the same terms.

The main result is `siblings_matter_iff`, about any folder and any additional files, at every
state that a publication can reach: for finishing an output, creating, resuming and finishing an
acquisition, and resuming a finished image, it says exactly which files next to the output
matter to the outcome. The comparison is with a request over the belonging files only. The
entries of the folder are regular files that can be read; links are resolved by a parameter.
-/

namespace EwfImage.Publication

open Fallible

/-- `check_file_signature`. -/
def checkFileSignature (content : Bytes) : Bool :=
  [Ewf1.evfSignature, Ewf1.lvfSignature, Ewf2.ex01Signature, Ewf2.lef2Signature].contains
    (content.take 8)

/-- The regular files below the output directories. -/
structure Folder where
  entries : List (OutputPath × Bytes)
  distinct : (entries.map Prod.fst).Nodup

namespace Folder

variable (folder : Folder)

def paths : List OutputPath := folder.entries.map Prod.fst

def files (path : OutputPath) : Option Bytes := folder.entries.lookup path

/-- The files that are a target of the output or carry a signature. -/
def belonging (targets : List OutputPath) : Folder where
  entries := folder.entries.filter fun entry =>
    targets.contains entry.1 || checkFileSignature entry.2
  distinct := (List.filter_sublist.map Prod.fst).nodup folder.distinct

/-- `path` is a target of the publication, or a file whose bytes begin with the signature of a
segment. -/
def Belongs (targets : List OutputPath) (path : OutputPath) : Prop :=
  path ∈ targets ∨ ∃ content, (path, content) ∈ folder.entries ∧ checkFileSignature content = true

end Folder

/-- The encoded segments of one output, under the names that the numbering gives them. -/
structure OutputSet where
  first : OutputPath × Bytes
  others : List (OutputPath × Bytes)
  distinct : ((first :: others).map Prod.fst).Nodup

namespace OutputSet

def segments (set : OutputSet) : List (OutputPath × Bytes) := set.first :: set.others

def names (set : OutputSet) : List OutputPath := set.segments.map Prod.fst

end OutputSet

/-- What `finish` publishes: the output and its mirror, of the same number of segments. -/
structure Finish where
  sets : List OutputSet
  sets_pos : 0 < sets.length
  segmentCount : Nat
  count : ∀ set ∈ sets, set.segments.length = segmentCount
  identity : { identity : Bytes // identity.length = 32 }
  isV2 : Bool
  overwriteExisting : Bool

namespace Finish

variable (canonicalize : OutputPath → Option OutputPath) (finish : Finish)

/-- Every name that the output writes. -/
def targets : List OutputPath := finish.sets.flatMap OutputSet.names

def destinations (folder : Folder) (set : Nat) : List OutputPath :=
  match finish.sets[set]? with
  | some output => publicationSegmentPaths canonicalize folder.paths output.names finish.isV2
  | none => []

def validTarget (set : Nat) (path : OutputPath) : Bool :=
  match finish.sets[set]? with
  | some output => isSegmentOf output.first.1 path
  | none => false

/-- The publication of `finish` in a folder; each segment is staged for all sets in turn. -/
def request (folder : Folder) : Request OutputPath Bytes where
  sets := finish.sets.length
  sets_pos := finish.sets_pos
  identity := finish.identity
  destinations := finish.destinations canonicalize folder
  writtenCount := finish.segmentCount
  staging := (List.range finish.segmentCount).flatMap fun index =>
    (List.range finish.sets.length).filterMap fun set => do
      let output ← finish.sets[set]?
      let (path, content) ← output.segments[index]?
      return (set, path, content)
  policy := { validTarget := finish.validTarget, allowReplace := finish.overwriteExisting }

/-- The publication changes no file that does not belong to it, in any run, and it can commit
exactly when it can without those files. -/
structure LeavesOthers (folder : Folder) : Prop where
  kept : ∀ system, Reachable (finish.request canonicalize folder) folder.files system →
    ∀ path content, (path, content) ∈ folder.entries →
      ¬ folder.Belongs finish.targets path → system.disk.files path = some content
  unhindered : CanCommit (finish.request canonicalize folder) folder.files ↔
    CanCommit (finish.request canonicalize (folder.belonging finish.targets))
      (folder.belonging finish.targets).files

/-- The publication stops at a destination, whatever else is in the folder: already with the files
that belong to it, one of its destinations is no valid target or may not be replaced. -/
def RefusedAnyway (folder : Folder) : Prop :=
  ∃ set < finish.sets.length,
    ∃ path ∈ finish.destinations canonicalize (folder.belonging finish.targets) set,
      ¬ (finish.validTarget set path = true ∧
        (path ∈ (folder.belonging finish.targets).paths → finish.overwriteExisting = true))

end Finish

/-! ## Folders -/

namespace Folder

variable {folder : Folder} {targets : List OutputPath} {path : OutputPath} {content : Bytes}

theorem files_eq_some : folder.files path = some content ↔ (path, content) ∈ folder.entries := by
  have hdistinct := folder.distinct
  unfold files
  generalize folder.entries = entries at hdistinct ⊢
  induction entries with
  | nil => simp
  | cons entry entries ih =>
    obtain ⟨name, found⟩ := entry
    rw [List.map_cons, List.nodup_cons] at hdistinct
    rw [List.lookup_cons, List.mem_cons]
    by_cases heq : path = name
    · subst heq
      have hnot : (path, content) ∉ entries := fun hmem =>
        hdistinct.1 (List.mem_map.mpr ⟨_, hmem, rfl⟩)
      simp [hnot, eq_comm]
    · have hbeq : (path == name) = false := by simpa using heq
      simp only [hbeq, ih hdistinct.2, Prod.mk.injEq, heq, false_and, false_or]

theorem mem_paths : path ∈ folder.paths ↔ ∃ content, (path, content) ∈ folder.entries := by
  simp [paths]

theorem files_isSome : (folder.files path).isSome ↔ path ∈ folder.paths := by
  rw [Option.isSome_iff_exists, mem_paths]
  simp only [files_eq_some]

theorem mem_belonging : (path, content) ∈ (folder.belonging targets).entries ↔
    (path, content) ∈ folder.entries ∧ (path ∈ targets ∨ checkFileSignature content = true) := by
  simp [belonging]

theorem belongs_of_mem_entries (h : (path, content) ∈ folder.entries) :
    folder.Belongs targets path ↔ path ∈ targets ∨ checkFileSignature content = true := by
  constructor
  · rintro (htarget | ⟨found, hfound, hsignature⟩)
    · exact .inl htarget
    · have hsame : content = found := Option.some.inj
        ((files_eq_some.mpr h).symm.trans (files_eq_some.mpr hfound))
      exact .inr (hsame ▸ hsignature)
  · rintro (htarget | hsignature)
    · exact .inl htarget
    · exact .inr ⟨content, h, hsignature⟩

theorem mem_paths_belonging :
    path ∈ (folder.belonging targets).paths ↔ path ∈ folder.paths ∧ folder.Belongs targets path := by
  rw [mem_paths, mem_paths]
  simp only [mem_belonging]
  constructor
  · rintro ⟨content, hmem, hbelongs⟩
    exact ⟨⟨content, hmem⟩, (belongs_of_mem_entries hmem).mpr hbelongs⟩
  · rintro ⟨⟨content, hmem⟩, hbelongs⟩
    exact ⟨content, hmem, (belongs_of_mem_entries hmem).mp hbelongs⟩

theorem files_belonging (h : folder.Belongs targets path) :
    (folder.belonging targets).files path = folder.files path := by
  refine Option.ext fun content => ?_
  rw [files_eq_some, files_eq_some, mem_belonging]
  exact and_iff_left_of_imp fun hmem => (belongs_of_mem_entries hmem).mp h

/-- Selecting files that belong is the same with and without the other ones. -/
theorem filter_paths_belonging {selects : OutputPath → Bool}
    (h : ∀ path ∈ folder.paths, selects path = true → folder.Belongs targets path) :
    (folder.belonging targets).paths.filter selects = folder.paths.filter selects := by
  unfold paths belonging
  rw [List.filter_map, List.filter_map, List.filter_filter]
  congr 1
  refine List.filter_congr fun entry hentry => ?_
  cases hselects : selects entry.1 with
  | false => simp [hselects]
  | true =>
    have hbelongs := h entry.1 (mem_paths.mpr ⟨entry.2, hentry⟩) hselects
    have hkept := (belongs_of_mem_entries hentry).mp hbelongs
    simpa [hselects] using hkept

end Folder

/-! ## Stale segments -/

/-- `publication_segment_paths` takes the name of an existing file for a stale segment. -/
def isStale (canonicalize : OutputPath → Option OutputPath) (written : List OutputPath) (isV2 : Bool)
    (path : OutputPath) : Bool :=
  match written with
  | [] => false
  | first :: _ =>
    path.directory = first.directory && path.stem = first.stem &&
      isSegmentExtension path.extension (extensionPrefix first) isV2 &&
      !(written.contains path ||
        (canonicalize path).any (written.filterMap canonicalize).contains)

section Stale

variable {canonicalize : OutputPath → Option OutputPath} {listing written : List OutputPath}
  {isV2 : Bool} {path : OutputPath}

theorem publicationSegmentPaths_eq : publicationSegmentPaths canonicalize listing written isV2 =
    written ++ (listing.filter (isStale canonicalize written isV2)).insertionSort
      fun a b => a.extension ≤ b.extension := by
  cases written with
  | nil =>
    have hnone : listing.filter (isStale canonicalize [] isV2) = [] :=
      List.filter_eq_nil_iff.mpr fun _ _ => by simp [isStale]
    rw [hnone]
    rfl
  | cons first others => rfl

theorem mem_publicationSegmentPaths :
    path ∈ publicationSegmentPaths canonicalize listing written isV2 ↔
      path ∈ written ∨ (path ∈ listing ∧ isStale canonicalize written isV2 path = true) := by
  rw [publicationSegmentPaths_eq, List.mem_append, List.mem_insertionSort, List.mem_filter]

end Stale

/-! ## Finishing -/

namespace Finish

variable {canonicalize : OutputPath → Option OutputPath} {finish : Finish} {folder : Folder}

/-- The file is removed as a stale segment, or stops the publication, for its name alone, whatever
its bytes are. -/
def IsStale (canonicalize : OutputPath → Option OutputPath) (finish : Finish) (path : OutputPath) :
    Prop :=
  ∃ output ∈ finish.sets, isStale canonicalize output.names finish.isV2 path = true

theorem destinations_of_lt {set : Nat} (hset : set < finish.sets.length) :
    finish.destinations canonicalize folder set =
      publicationSegmentPaths canonicalize folder.paths finish.sets[set].names finish.isV2 := by
  unfold destinations
  rw [List.getElem?_eq_getElem hset]

theorem names_length {output : OutputSet} (h : output ∈ finish.sets) :
    output.names.length = finish.segmentCount := by
  rw [OutputSet.names, List.length_map]
  exact finish.count output h

theorem written_eq {set : Nat} (hset : set < finish.sets.length) :
    (finish.request canonicalize folder).written set = finish.sets[set].names := by
  have hlength := names_length (List.getElem_mem hset)
  unfold Request.written
  simp only [request]
  rw [destinations_of_lt hset, publicationSegmentPaths_eq, ← hlength, List.take_left]

theorem mem_stale {set : Nat} (hset : set < finish.sets.length) {path : OutputPath} :
    path ∈ (finish.request canonicalize folder).stale set ↔
      path ∈ folder.paths ∧ isStale canonicalize finish.sets[set].names finish.isV2 path = true := by
  have hlength := names_length (List.getElem_mem hset)
  unfold Request.stale
  simp only [request]
  rw [destinations_of_lt hset, publicationSegmentPaths_eq, ← hlength, List.drop_left,
    List.mem_insertionSort, List.mem_filter]

theorem mem_targets {path : OutputPath} {set : Nat} (hset : set < finish.sets.length)
    (h : path ∈ finish.sets[set].names) : path ∈ finish.targets :=
  List.mem_flatMap.mpr ⟨_, List.getElem_mem hset, h⟩

/-- What the publication claims belongs to it when its stale segments do. -/
theorem belongs_of_claims {path : OutputPath}
    (hstale : ∀ path ∈ folder.paths, finish.IsStale canonicalize path →
      folder.Belongs finish.targets path)
    (h : (finish.request canonicalize folder).Claims path) : folder.Belongs finish.targets path := by
  obtain ⟨set, hset, hmem⟩ := h
  have hmem : path ∈ finish.destinations canonicalize folder set := hmem
  rw [destinations_of_lt hset, mem_publicationSegmentPaths] at hmem
  rcases hmem with hname | ⟨hpath, hsuffix⟩
  · exact .inl (mem_targets hset hname)
  · exact hstale path hpath ⟨_, List.getElem_mem hset, hsuffix⟩

/-- Without foreign stale segments the request is the one over the belonging files. -/
theorem request_belonging
    (hstale : ∀ path ∈ folder.paths, finish.IsStale canonicalize path →
      folder.Belongs finish.targets path) :
    finish.request canonicalize (folder.belonging finish.targets) =
      finish.request canonicalize folder := by
  have hdestinations : finish.destinations canonicalize (folder.belonging finish.targets) =
      finish.destinations canonicalize folder := by
    funext set
    by_cases hset : set < finish.sets.length
    · rw [destinations_of_lt hset, destinations_of_lt hset, publicationSegmentPaths_eq,
        publicationSegmentPaths_eq, Folder.filter_paths_belonging]
      intro path hpath hselects
      exact hstale path hpath ⟨_, List.getElem_mem hset, hselects⟩
    · unfold destinations
      rw [List.getElem?_eq_none (Nat.le_of_not_lt hset)]
  unfold request
  rw [hdestinations]

theorem mem_staging {set : Nat} {path : OutputPath} {content : Bytes} :
    (set, path, content) ∈ (finish.request canonicalize folder).staging ↔
      ∃ hset : set < finish.sets.length, (path, content) ∈ finish.sets[set].segments := by
  simp only [request, List.mem_flatMap, List.mem_filterMap, List.mem_range]
  constructor
  · rintro ⟨index, -, other, hother, hfound⟩
    simp only [Option.bind_eq_bind, Option.bind_eq_some_iff, Option.pure_def, Option.some.injEq,
      Prod.mk.injEq] at hfound
    obtain ⟨output, houtput, ⟨_, _⟩, hsegment, rfl, rfl, rfl⟩ := hfound
    rw [List.getElem?_eq_getElem hother, Option.some.injEq] at houtput
    subst houtput
    exact ⟨hother, List.mem_of_getElem? hsegment⟩
  · rintro ⟨hset, hmem⟩
    obtain ⟨index, hindex, heq⟩ := List.getElem_of_mem hmem
    have hcount := finish.count _ (List.getElem_mem hset)
    refine ⟨index, hcount ▸ hindex, set, hset, ?_⟩
    simp [List.getElem?_eq_getElem hset, List.getElem?_eq_getElem hindex, heq]

theorem staged : (finish.request canonicalize folder).Staged := by
  refine ⟨?_, ?_, ?_⟩
  · intro set path content hmem
    obtain ⟨hset, -⟩ := mem_staging.mp hmem
    exact hset
  · intro set hset path hpath
    rw [written_eq hset] at hpath
    obtain ⟨⟨name, content⟩, hmem, rfl⟩ := List.mem_map.mp hpath
    exact stagedAfter_isSome (mem_staging.mpr ⟨hset, hmem⟩) none
  · intro set hset
    rw [written_eq hset]
    exact finish.sets[set].distinct

/-- Finishing leaves the other files alone and is not hindered by them exactly when every file with
the name of a stale segment belongs to the output or the publication is refused without them. -/
theorem leavesOthers_iff : finish.LeavesOthers canonicalize folder ↔
    (∀ path ∈ folder.paths, finish.IsStale canonicalize path →
      folder.Belongs finish.targets path) ∨ finish.RefusedAnyway canonicalize folder := by
  constructor
  · intro h
    by_contra hnot
    rw [not_or] at hnot
    obtain ⟨hforeign, hallowed⟩ := hnot
    push Not at hforeign
    obtain ⟨path, hpath, ⟨output, houtput, hstale⟩, hbelongs⟩ := hforeign
    obtain ⟨set, hset, rfl⟩ := List.getElem_of_mem houtput
    have hcommits : CanCommit (finish.request canonicalize (folder.belonging finish.targets))
        (folder.belonging finish.targets).files := by
      refine canCommit_of_allows staged fun other hother found hfound => ?_
      by_contra hrefused
      refine hallowed ⟨other, hother, found, hfound, fun hallows => hrefused ?_⟩
      exact ⟨hallows.1, fun hsome => hallows.2 (Folder.files_isSome.mp hsome)⟩
    obtain ⟨system, hrun, hremoved⟩ := reachable_removed hset ((mem_stale hset).mpr ⟨hpath, hstale⟩)
      (fun other hother hwritten => hbelongs (.inl (mem_targets hother
        (by rwa [written_eq hother] at hwritten))))
      (h.unhindered.mpr hcommits)
    obtain ⟨content, hmem⟩ := Folder.mem_paths.mp hpath
    rw [h.kept system hrun path content hmem hbelongs] at hremoved
    cases hremoved
  · rintro (hstale | ⟨set, hset, path, hpath, hrefused⟩)
    · refine ⟨?_, ?_⟩
      · intro system hrun path content hmem hforeign
        rw [hrun.confined.files path fun hclaims => hforeign (belongs_of_claims hstale hclaims)]
        exact Folder.files_eq_some.mpr hmem
      · rw [request_belonging hstale]
        refine canCommit_congr fun path hclaims => ?_
        exact Folder.files_belonging (belongs_of_claims hstale hclaims)
    · have hlisted : ∀ {found : Folder}, (∀ path ∈ (folder.belonging finish.targets).paths,
          path ∈ found.paths) → (finish.request canonicalize found).Refuses found.files set path := by
        intro found hsub
        have hdestination : path ∈ finish.destinations canonicalize found set := by
          rw [destinations_of_lt hset, mem_publicationSegmentPaths] at hpath ⊢
          exact hpath.imp_right fun hstale => ⟨hsub path hstale.1, hstale.2⟩
        refine ⟨hset, hdestination, fun hallows => hrefused ⟨hallows.1, fun hin => ?_⟩⟩
        exact hallows.2 (Folder.files_isSome.mpr (hsub path hin))
      have hall := hlisted fun path hin => (Folder.mem_paths_belonging.mp hin).1
      have hbelonging : (finish.request canonicalize (folder.belonging finish.targets)).Refuses
          (folder.belonging finish.targets).files set path := hlisted fun _ hin => hin
      refine ⟨?_, iff_of_false ?_ ?_⟩
      · intro system hrun other content hmem _
        rw [(refused_of_refuses hall hrun).files]
        exact Folder.files_eq_some.mpr hmem
      · rintro ⟨system, hrun, hcommitted⟩
        rw [(refused_of_refuses hall hrun).committed] at hcommitted
        cases hcommitted
      · rintro ⟨system, hrun, hcommitted⟩
        rw [(refused_of_refuses hbelonging hrun).committed] at hcommitted
        cases hcommitted

end Finish

/-! ## The checks of an acquisition -/

/-- `ensure_output_absent`. -/
def ensureOutputAbsent (canonicalize : OutputPath → Option OutputPath) (folder : Folder)
    (first : OutputPath) : Result Unit :=
  (publicationSegmentPaths canonicalize folder.paths [first] false).forM fun path =>
    rejectIf (folder.files path).isSome (.io .alreadyExists)

/-- The check of `finish` in front of the hard links. -/
def ensureNoOtherSegments (canonicalize : OutputPath → Option OutputPath) (folder : Folder)
    (paths : List OutputPath) : Result Unit :=
  rejectIf ((publicationSegmentPaths canonicalize folder.paths paths false).length ≠ paths.length)
    (.malformed "unexpected acquisition output segments")

section Acquisition

variable {canonicalize : OutputPath → Option OutputPath} {folder : Folder} {first : OutputPath}
  {others paths : List OutputPath}

theorem ensureOutputAbsent_eq : ensureOutputAbsent canonicalize folder first =
    rejectIf (∃ path ∈ folder.paths, path = first ∨ isStale canonicalize [first] false path = true)
      (.io .alreadyExists) := by
  have hloop : ∀ paths : List OutputPath, (paths.forM fun path =>
      rejectIf (folder.files path).isSome (EwfError.io .alreadyExists)) =
      rejectIf (∃ path ∈ paths, path ∈ folder.paths) (.io .alreadyExists) := by
    intro paths
    induction paths with
    | nil => rfl
    | cons path paths ih =>
      change (rejectIf _ _ >>= fun _ => paths.forM _) = _
      rw [ih]
      by_cases hpath : path ∈ folder.paths
      · rw [rejectIf_pos _ (Folder.files_isSome.mpr hpath)]
        exact (rejectIf_pos _ ⟨path, List.mem_cons_self, hpath⟩).symm
      · rw [rejectIf_neg _ fun hsome => hpath (Folder.files_isSome.mp hsome), ok_bind,
          rejectIf_eq_rejectIf_iff]
        simp [hpath]
  unfold ensureOutputAbsent
  rw [hloop, rejectIf_eq_rejectIf_iff]
  simp only [mem_publicationSegmentPaths, List.mem_singleton]
  constructor
  · rintro ⟨path, hfirst | hstale, hpath⟩
    · exact ⟨path, hpath, .inl hfirst⟩
    · exact ⟨path, hpath, .inr hstale.2⟩
  · rintro ⟨path, hpath, hfirst | hstale⟩
    · exact ⟨path, .inl hfirst, hpath⟩
    · exact ⟨path, .inr ⟨hpath, hstale⟩, hpath⟩

theorem ensureNoOtherSegments_eq : ensureNoOtherSegments canonicalize folder paths =
    rejectIf (∃ path ∈ folder.paths, isStale canonicalize paths false path = true)
      (.malformed "unexpected acquisition output segments") := by
  unfold ensureNoOtherSegments
  rw [rejectIf_eq_rejectIf_iff, publicationSegmentPaths_eq, List.length_append,
    List.length_insertionSort, Ne, Nat.add_eq_left, List.length_eq_zero_iff, List.filter_eq_nil_iff]
  push Not
  rfl

/-- A file that makes a check fail belongs to the output, or another one makes it fail too. -/
theorem exists_selected_belonging_iff {selects : OutputPath → Prop} {targets : List OutputPath} :
    ((∃ path ∈ folder.paths, selects path) ↔ ∃ path ∈ (folder.belonging targets).paths, selects path) ↔
      (∀ path ∈ folder.paths, selects path → folder.Belongs targets path) ∨
        ∃ path ∈ (folder.belonging targets).paths, selects path := by
  constructor
  · intro h
    by_cases hexists : ∃ path ∈ (folder.belonging targets).paths, selects path
    · exact .inr hexists
    · refine .inl fun path hpath hselects => ?_
      exact absurd (h.mp ⟨path, hpath, hselects⟩) hexists
  · rintro (hbelongs | hexists)
    · refine ⟨?_, ?_⟩
      · rintro ⟨path, hpath, hselects⟩
        exact ⟨path, Folder.mem_paths_belonging.mpr ⟨hpath, hbelongs path hpath hselects⟩, hselects⟩
      · rintro ⟨path, hpath, hselects⟩
        exact ⟨path, (Folder.mem_paths_belonging.mp hpath).1, hselects⟩
    · obtain ⟨path, hpath, hselects⟩ := hexists
      exact iff_of_true ⟨path, (Folder.mem_paths_belonging.mp hpath).1, hselects⟩
        ⟨path, hpath, hselects⟩

theorem ensureOutputAbsent_belonging_iff :
    ensureOutputAbsent canonicalize folder first =
        ensureOutputAbsent canonicalize (folder.belonging (first :: others)) first ↔
      (∀ path ∈ folder.paths, isStale canonicalize [first] false path = true →
        folder.Belongs (first :: others) path) ∨
      ∃ path ∈ (folder.belonging (first :: others)).paths,
        path = first ∨ isStale canonicalize [first] false path = true := by
  have hfirst : ∀ path, path = first → folder.Belongs (first :: others) path := by
    rintro path rfl
    exact .inl List.mem_cons_self
  rw [ensureOutputAbsent_eq, ensureOutputAbsent_eq, rejectIf_eq_rejectIf_iff,
    exists_selected_belonging_iff]
  refine or_congr_left (forall₂_congr fun path _ => ?_)
  exact ⟨fun h hstale => h (.inr hstale), fun h hselects => hselects.elim (hfirst path) h⟩

theorem ensureNoOtherSegments_belonging_iff :
    ensureNoOtherSegments canonicalize folder paths =
        ensureNoOtherSegments canonicalize (folder.belonging paths) paths ↔
      (∀ path ∈ folder.paths, isStale canonicalize paths false path = true →
        folder.Belongs paths path) ∨
      ∃ path ∈ (folder.belonging paths).paths, isStale canonicalize paths false path = true := by
  rw [ensureNoOtherSegments_eq, ensureNoOtherSegments_eq, rejectIf_eq_rejectIf_iff,
    exists_selected_belonging_iff]

end Acquisition

/-! ## The discovery of segments -/

/-- A file of the requested name or with a signature. -/
def belongsToImage (first : RequestedPath) (file : DirFile) : Bool :=
  first.fileName = some file.name || checkFileSignature file.content

theorem discoverSegments_belonging_iff {first : RequestedPath} {files : List DirFile} :
    discoverSegments first files =
        discoverSegments first (files.filter (belongsToImage first)) ↔
      ∀ search, SegmentSearch.ofFirst first = .ok search →
        (∃ file ∈ files.filter (belongsToImage first), search.Unreadable file) ∨
        ∀ file ∈ files, belongsToImage first file = false → search.isCandidate file = true →
          8 ≤ file.content.length := by
  rw [discoverSegments_extras_iff (List.filter_append_perm _ files).symm]
  refine forall₂_congr fun search hsearch => or_congr_right ?_
  obtain ⟨hname, hsignature⟩ := SegmentSearch.of_ofFirst hsearch
  constructor
  · intro h file hfile hforeign hcandidate
    exact (h file (List.mem_filter.mpr ⟨hfile, by simp [hforeign]⟩) hcandidate).2.1
  · intro h file hmem hcandidate
    obtain ⟨hfile, hforeign⟩ := List.mem_filter.mp hmem
    have hforeign : belongsToImage first file = false := by simpa using hforeign
    have hnot := hforeign
    simp only [belongsToImage, Bool.or_eq_false_iff, decide_eq_false_iff_not] at hnot
    refine ⟨fun heq => hnot.1 (by rw [hname, heq]), h file hfile hforeign hcandidate, fun heq => ?_⟩
    have hfound : checkFileSignature file.content = true := by
      unfold checkFileSignature
      rw [heq]
      exact List.contains_iff_mem.mpr hsignature
    rw [hfound] at hnot
    cases hnot.2

/-- Which files next to an output matter to finishing it, to creating, resuming and finishing an
acquisition, and to resuming a finished image. Only the discovery looks at signatures; it stops at
a file that is too short for one. -/
theorem siblings_matter_iff (canonicalize : OutputPath → Option OutputPath) (finish : Finish)
    (folder : Folder) (first : OutputPath) (others : List OutputPath) (requested : RequestedPath)
    (files : List DirFile) :
    (finish.LeavesOthers canonicalize folder ↔
      (∀ path ∈ folder.paths, finish.IsStale canonicalize path →
        folder.Belongs finish.targets path) ∨ finish.RefusedAnyway canonicalize folder) ∧
    (ensureOutputAbsent canonicalize folder first =
        ensureOutputAbsent canonicalize (folder.belonging (first :: others)) first ↔
      (∀ path ∈ folder.paths, isStale canonicalize [first] false path = true →
        folder.Belongs (first :: others) path) ∨
      ∃ path ∈ (folder.belonging (first :: others)).paths,
        path = first ∨ isStale canonicalize [first] false path = true) ∧
    (ensureNoOtherSegments canonicalize folder (first :: others) =
        ensureNoOtherSegments canonicalize (folder.belonging (first :: others)) (first :: others) ↔
      (∀ path ∈ folder.paths, isStale canonicalize (first :: others) false path = true →
        folder.Belongs (first :: others) path) ∨
      ∃ path ∈ (folder.belonging (first :: others)).paths,
        isStale canonicalize (first :: others) false path = true) ∧
    (discoverSegments requested files =
        discoverSegments requested (files.filter (belongsToImage requested)) ↔
      ∀ search, SegmentSearch.ofFirst requested = .ok search →
        (∃ file ∈ files.filter (belongsToImage requested), search.Unreadable file) ∨
        ∀ file ∈ files, belongsToImage requested file = false → search.isCandidate file = true →
          8 ≤ file.content.length) :=
  ⟨finish.leavesOthers_iff, ensureOutputAbsent_belonging_iff, ensureNoOtherSegments_belonging_iff,
    discoverSegments_belonging_iff⟩

/-- One segment for `case.E01`, with the permission to replace output. -/
def replacingFinish : Finish where
  sets := [⟨(segmentNamed "E01", [1]), [], by decide⟩]
  sets_pos := by decide
  segmentCount := 1
  count := by decide
  identity := zeroIdentity
  isV2 := false
  overwriteExisting := true

/-- A text file `case.TXT` of three bytes. -/
def notesFolder : Folder where
  entries := [(segmentNamed "TXT", [97, 98, 99])]
  distinct := by decide

/-- The text file next to the output is removed. -/
theorem not_leavesOthers_of_any_folder : ¬ ∀ (canonicalize : OutputPath → Option OutputPath)
    (finish : Finish) (folder : Folder), finish.LeavesOthers canonicalize folder := by
  intro hclaim
  have hnotes := hclaim some replacingFinish notesFolder
  rcases Finish.leavesOthers_iff.mp hnotes with hbelongs | ⟨set, hset, path, hpath, hrefused⟩
  · have hin : segmentNamed "TXT" ∈ notesFolder.paths := by decide
    have hstale : replacingFinish.IsStale some (segmentNamed "TXT") := by
      unfold Finish.IsStale
      decide
    rcases hbelongs _ hin hstale with htarget | ⟨content, hcontent, hsignature⟩
    · revert htarget
      decide
    · have hnotes : content = [97, 98, 99] := by
        simpa [notesFolder] using hcontent
      rw [hnotes] at hsignature
      revert hsignature
      decide
  · have hzero : set = 0 := Nat.lt_one_iff.mp hset
    subst hzero
    have hname : ∀ path ∈ replacingFinish.destinations some
        (notesFolder.belonging replacingFinish.targets) 0, path = segmentNamed "E01" := by decide
    rw [hname path hpath] at hrefused
    exact hrefused ⟨by decide, fun _ => rfl⟩

end EwfImage.Publication

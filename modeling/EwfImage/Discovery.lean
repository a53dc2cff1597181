import EwfImage.Format.Ewf1
import EwfImage.Format.Ewf2
import EwfImage.Segment
import Mathlib.Data.Prod.Lex
import Mathlib.Data.String.Basic

/-!
# Segment discovery

The segments of an image are the files of its directory that share its stem, have an
extension of the set and carry the signature of the set. The requested file itself is
taken without a look at it.

The main result is `discoverSegments_unaffected_iff`, about any additional files with any names
and contents: the search gives the same segments, or fails in the same way, exactly when each of
the files is overlooked (its name or its content keeps it out of the set) or the search fails
without them already in that way. The names of a directory are distinct, and its entries are
regular files that can be read. `discoverSegments_unaffected_exe` is a file that does not
matter, and `not_discoverSegments_unaffected` one that does: it is shorter than a signature.
-/

namespace EwfImage

open Fallible

/-- A file of a directory; a directory is the list of its files in the order of reading. -/
structure DirFile where
  name : String
  content : Bytes
  deriving DecidableEq

/-- A path with its text and the name of the file. -/
structure RequestedPath where
  display : String
  fileName : Option String

/-- `rsplit_file_at_dot`: a dot at the front does not start an extension. -/
def rsplitFileAtDot (name : String) : String × Option String :=
  let chars := name.toList
  let after := (chars.reverse.takeWhile (· ≠ '.')).reverse
  let before := chars.take (chars.length - (after.length + 1))
  if chars.contains '.' && !before.isEmpty then (String.ofList before, some (String.ofList after))
  else (name, none)

def fileStem (name : String) : String := (rsplitFileAtDot name).1

def fileExtension (name : String) : Option String := (rsplitFileAtDot name).2

def expectedSegmentSignature (firstPrefix : Char) (isV2 : Bool) : Bytes :=
  if isV2 then (if firstPrefix.toLower = 'l' then Ewf2.lef2Signature else Ewf2.ex01Signature)
  else if firstPrefix.toLower = 'l' then Ewf1.lvfSignature
  else Ewf1.evfSignature

/-- What a search for segments looks for: the names that share the stem and the form of extension of
the requested one, and the signature that their bytes must begin with. -/
structure SegmentSearch where
  requestedName : String
  stem : String
  firstPrefix : Char
  isV2 : Bool
  expectedSignature : Bytes

def SegmentSearch.ofFirst (first : RequestedPath) : Result SegmentSearch := do
  let requestedName ← okOr (.noSegments first.display) first.fileName
  let ext := (fileExtension requestedName).getD "E01"
  let firstPrefix ← okOr (.noSegments first.display) (ext.toList.head?.map Char.toUpper)
  let isV2 := ext.length == 4
  return {
    requestedName
    stem := fileStem requestedName
    firstPrefix
    isV2
    expectedSignature := expectedSegmentSignature firstPrefix isV2 }

/-- A search looks for the requested file and one of the four signatures. -/
theorem SegmentSearch.of_ofFirst {first : RequestedPath} {search : SegmentSearch}
    (h : SegmentSearch.ofFirst first = .ok search) :
    first.fileName = some search.requestedName ∧ search.expectedSignature ∈
      [Ewf1.evfSignature, Ewf1.lvfSignature, Ewf2.ex01Signature, Ewf2.lef2Signature] := by
  simp only [ofFirst, bind_eq_ok, okOr_eq_ok, pure_eq_ok, Except.ok.injEq] at h
  obtain ⟨name, hname, firstPrefix, _, rfl⟩ := h
  refine ⟨hname, ?_⟩
  simp only [expectedSegmentSignature]
  split <;> split <;> simp

namespace SegmentSearch

variable (search : SegmentSearch)

def isCandidate (file : DirFile) : Bool :=
  fileStem file.name = search.stem &&
    (fileExtension file.name).any (isSegmentExtension · search.firstPrefix search.isV2)

/-- `is_discoverable_segment`; a file too short for a signature cannot be read. -/
def isDiscoverableSegment (candidate : DirFile) : Result Bool :=
  if candidate.name = search.requestedName then .ok true
  else do
    rejectIf (candidate.content.length < 8) (.io .unexpectedEof)
    return candidate.content.take 8 = search.expectedSignature

/-- The loop over the directory. -/
def selectSegments : List DirFile → Result (List String)
  | [] => .ok []
  | file :: files =>
    if search.isCandidate file then do
      let discoverable ← search.isDiscoverableSegment file
      let segments ← selectSegments files
      return if discoverable then file.name :: segments else segments
    else selectSegments files

end SegmentSearch

def extensionKey (name : String) : String :=
  String.ofList (((fileExtension name).getD "").toList.map Char.toUpper)

/-- Segments are in the order of their extensions, then of their names. -/
def segmentKey (name : String) : String ×ₗ String := toLex (extensionKey name, name)

def discoverSegments (first : RequestedPath) (files : List DirFile) : Result (List String) := do
  let search ← SegmentSearch.ofFirst first
  let segments ← search.selectSegments files
  rejectIf (segments = []) (.noSegments first.display)
  return segments.insertionSort fun left right => segmentKey left ≤ segmentKey right

/-! ## Files that are not segments -/

namespace SegmentSearch

variable (search : SegmentSearch)

/-- The file stops the search with an error: its name is that of a segment, and it is too short for
a signature. -/
def Unreadable (file : DirFile) : Prop :=
  search.isCandidate file = true ∧ file.name ≠ search.requestedName ∧ file.content.length < 8

/-- The search passes over the file: its name is not that of a segment, or it begins with other
bytes than the expected signature. -/
def Overlooks (file : DirFile) : Prop :=
  search.isCandidate file = true → file.name ≠ search.requestedName ∧
    8 ≤ file.content.length ∧ file.content.take 8 ≠ search.expectedSignature

/-- A candidate that is a segment when it can be read. -/
def accepts (file : DirFile) : Bool :=
  search.isCandidate file && (file.name = search.requestedName ||
    file.content.take 8 = search.expectedSignature)

instance (file : DirFile) : Decidable (search.Unreadable file) := by
  unfold Unreadable
  infer_instance

instance (file : DirFile) : Decidable (search.Overlooks file) := by
  unfold Overlooks
  infer_instance

variable {search} {files : List DirFile}

theorem isDiscoverableSegment_eq {file : DirFile} (hcandidate : search.isCandidate file = true) :
    search.isDiscoverableSegment file = if search.Unreadable file then .error (.io .unexpectedEof)
      else .ok (search.accepts file) := by
  unfold isDiscoverableSegment
  by_cases hname : file.name = search.requestedName
  · simp [hname, Unreadable, accepts, hcandidate]
  · by_cases hshort : file.content.length < 8
    · rw [if_neg hname, rejectIf_pos _ hshort, if_pos ⟨hcandidate, hname, hshort⟩]
      rfl
    · rw [if_neg hname, rejectIf_neg _ hshort, ok_bind, if_neg fun h => hshort h.2.2]
      simp [accepts, hcandidate, hname]

theorem not_accepts_of_not_candidate {file : DirFile} (h : ¬ search.isCandidate file = true) :
    search.accepts file = false ∧ ¬ search.Unreadable file := by
  constructor
  · simp [accepts, h]
  · exact fun hshort => h hshort.1

theorem selectSegments_of_readable (h : ∀ file ∈ files, ¬ search.Unreadable file) :
    search.selectSegments files = .ok ((files.filter search.accepts).map (·.name)) := by
  induction files with
  | nil => rfl
  | cons file files ih =>
    have hfile := h file List.mem_cons_self
    have hrest := ih fun other hother => h other (List.mem_cons_of_mem _ hother)
    rw [selectSegments, hrest]
    by_cases hcandidate : search.isCandidate file = true
    · rw [if_pos hcandidate, isDiscoverableSegment_eq hcandidate, if_neg hfile, ok_bind, ok_bind,
        List.filter_cons]
      cases search.accepts file <;> simp
    · rw [if_neg hcandidate, List.filter_cons, (not_accepts_of_not_candidate hcandidate).1]
      simp

theorem selectSegments_of_unreadable (h : ∃ file ∈ files, search.Unreadable file) :
    search.selectSegments files = .error (.io .unexpectedEof) := by
  induction files with
  | nil =>
    obtain ⟨_, hfile, _⟩ := h
    cases hfile
  | cons file files ih =>
    obtain ⟨short, hshort, hunreadable⟩ := h
    rw [selectSegments]
    by_cases hfile : search.Unreadable file
    · rw [if_pos hfile.1, isDiscoverableSegment_eq hfile.1, if_pos hfile]
      rfl
    · have hrest : ∃ other ∈ files, search.Unreadable other := by
        rcases List.mem_cons.mp hshort with rfl | hmem
        · exact absurd hunreadable hfile
        · exact ⟨short, hmem, hunreadable⟩
      rw [ih hrest]
      by_cases hcandidate : search.isCandidate file = true
      · rw [if_pos hcandidate, isDiscoverableSegment_eq hcandidate, if_neg hfile]
        rfl
      · rw [if_neg hcandidate]

/-- A file that is read without effect is neither short nor a segment. -/
theorem overlooks_iff {file : DirFile} :
    search.Overlooks file ↔ ¬ search.Unreadable file ∧ search.accepts file = false := by
  by_cases hcandidate : search.isCandidate file = true
  · by_cases hname : file.name = search.requestedName
    · simp [Overlooks, Unreadable, accepts, hcandidate, hname]
    · simp [Overlooks, Unreadable, accepts, hcandidate, hname]
  · simp [Overlooks, Unreadable, accepts, hcandidate]

end SegmentSearch

/-- Sorted segments depend on the set of segments only. -/
theorem sortSegments_eq_of_perm {left right : List String} (h : left.Perm right) :
    (left.insertionSort fun a b => segmentKey a ≤ segmentKey b) =
      right.insertionSort fun a b => segmentKey a ≤ segmentKey b := by
  have hsorted : ∀ names : List String,
      (names.insertionSort fun a b => segmentKey a ≤ segmentKey b).Pairwise
        fun a b => segmentKey a ≤ segmentKey b := by
    intro names
    have : Std.Total fun a b : String => segmentKey a ≤ segmentKey b :=
      ⟨fun a b => le_total (segmentKey a) (segmentKey b)⟩
    have : IsTrans String fun a b => segmentKey a ≤ segmentKey b :=
      ⟨fun a b c => le_trans⟩
    exact List.pairwise_insertionSort _ names
  refine List.Perm.eq_of_pairwise ?_ (hsorted left) (hsorted right)
    (((List.perm_insertionSort _ left).trans h).trans (List.perm_insertionSort _ right).symm)
  intro a b _ _ hab hba
  have hkey := le_antisymm hab hba
  exact congrArg (fun key => (ofLex key).2) hkey

theorem discoverSegments_eq {first : RequestedPath} {search : SegmentSearch}
    {files : List DirFile} (hsearch : SegmentSearch.ofFirst first = .ok search)
    (h : ∀ file ∈ files, ¬ search.Unreadable file) :
    discoverSegments first files = if files.filter search.accepts = [] then
        .error (.noSegments first.display)
      else .ok (((files.filter search.accepts).map (·.name)).insertionSort
        fun left right => segmentKey left ≤ segmentKey right) := by
  unfold discoverSegments
  rw [hsearch, ok_bind, SegmentSearch.selectSegments_of_readable h, ok_bind]
  by_cases hnone : files.filter search.accepts = []
  · rw [if_pos hnone, rejectIf_pos _ (by rw [hnone]; rfl)]
    rfl
  · rw [if_neg hnone, rejectIf_neg _ (by simpa using hnone)]
    rfl

theorem discoverSegments_of_unreadable {first : RequestedPath} {search : SegmentSearch}
    {files : List DirFile} (hsearch : SegmentSearch.ofFirst first = .ok search)
    (h : ∃ file ∈ files, search.Unreadable file) :
    discoverSegments first files = .error (.io .unexpectedEof) := by
  unfold discoverSegments
  rw [hsearch, ok_bind, SegmentSearch.selectSegments_of_unreadable h]
  rfl

/-- Files that come on top of a listing, for one search. -/
theorem discoverSegments_extras_iff {first : RequestedPath} {files extras all : List DirFile}
    (hall : all.Perm (files ++ extras)) :
    discoverSegments first all = discoverSegments first files ↔
      ∀ search, SegmentSearch.ofFirst first = .ok search →
        (∃ file ∈ files, search.Unreadable file) ∨ ∀ file ∈ extras, search.Overlooks file := by
  cases hsearch : SegmentSearch.ofFirst first with
  | error e =>
    have hfail : ∀ listing, discoverSegments first listing = .error e := by
      intro listing
      unfold discoverSegments
      rw [hsearch]
      rfl
    rw [hfail, hfail]
    simp
  | ok search =>
    have hone : (∀ search', Except.ok (ε := EwfError) search = .ok search' →
        (∃ file ∈ files, search'.Unreadable file) ∨ ∀ file ∈ extras, search'.Overlooks file) ↔
        ((∃ file ∈ files, search.Unreadable file) ∨ ∀ file ∈ extras, search.Overlooks file) := by
      simp
    rw [hone]
    have hmem : ∀ file, file ∈ all ↔ file ∈ files ∨ file ∈ extras := by
      intro file
      rw [hall.mem_iff, List.mem_append]
    by_cases hfiles : ∃ file ∈ files, search.Unreadable file
    · obtain ⟨file, hfile, hshort⟩ := hfiles
      rw [discoverSegments_of_unreadable hsearch ⟨file, (hmem file).mpr (.inl hfile), hshort⟩,
        discoverSegments_of_unreadable hsearch ⟨file, hfile, hshort⟩]
      exact iff_of_true rfl (.inl ⟨file, hfile, hshort⟩)
    · have hreadable : ∀ file ∈ files, ¬ search.Unreadable file := fun file hfile hshort =>
        hfiles ⟨file, hfile, hshort⟩
      rw [discoverSegments_eq hsearch hreadable, or_iff_right hfiles]
      by_cases hextras : ∃ file ∈ extras, search.Unreadable file
      · obtain ⟨file, hfile, hshort⟩ := hextras
        rw [discoverSegments_of_unreadable hsearch ⟨file, (hmem file).mpr (.inr hfile), hshort⟩]
        refine iff_of_false ?_ fun h => (SegmentSearch.overlooks_iff.mp (h file hfile)).1 hshort
        split
        · exact fun h => by cases h
        · exact fun h => by cases h
      · have hallReadable : ∀ file ∈ all, ¬ search.Unreadable file := by
          intro file hfile hshort
          rcases (hmem file).mp hfile with hfile | hfile
          · exact hfiles ⟨file, hfile, hshort⟩
          · exact hextras ⟨file, hfile, hshort⟩
        have haccepted := hall.filter search.accepts
        rw [List.filter_append] at haccepted
        rw [discoverSegments_eq hsearch hallReadable]
        constructor
        · intro heq file hfile
          rw [SegmentSearch.overlooks_iff]
          refine ⟨fun hshort => hextras ⟨file, hfile, hshort⟩, ?_⟩
          -- An accepted file would make the list of segments longer.
          have hlength : (all.filter search.accepts).length = (files.filter search.accepts).length := by
            by_cases hnone : files.filter search.accepts = []
            · rw [if_pos hnone] at heq
              split at heq
              · rename_i hnoneAll
                rw [hnone, hnoneAll]
              · cases heq
            · have hsomeAll : all.filter search.accepts ≠ [] := by
                intro hnoneAll
                rw [hnoneAll] at haccepted
                exact hnone (List.append_eq_nil_iff.mp haccepted.nil_eq.symm).1
              rw [if_neg hnone, if_neg hsomeAll] at heq
              have hcount := congrArg List.length (Except.ok.inj heq)
              simpa using hcount
          rw [haccepted.length_eq, List.length_append] at hlength
          have hempty : extras.filter search.accepts = [] :=
            List.length_eq_zero_iff.mp (by omega)
          simpa using List.filter_eq_nil_iff.mp hempty file hfile
        · intro hover
          have hempty : extras.filter search.accepts = [] := by
            rw [List.filter_eq_nil_iff]
            intro file hfile haccepts
            rw [(SegmentSearch.overlooks_iff.mp (hover file hfile)).2] at haccepts
            cases haccepts
          rw [hempty, List.append_nil] at haccepted
          by_cases hnone : files.filter search.accepts = []
          · rw [hnone] at haccepted
            rw [if_pos hnone, if_pos haccepted.eq_nil]
          · have hsomeAll : all.filter search.accepts ≠ [] := fun hnoneAll => by
              rw [hnoneAll] at haccepted
              exact hnone haccepted.nil_eq.symm
            rw [if_neg hnone, if_neg hsomeAll, sortSegments_eq_of_perm (haccepted.map (·.name))]

/-- Additional files leave the result as it is exactly when each of them is overlooked or the search
fails without them in the same way. The files may come in any order, and their names and contents
are arbitrary. -/
theorem discoverSegments_unaffected_iff {first : RequestedPath} {files extras all : List DirFile}
    (hall : all.Perm (files ++ extras)) :
    discoverSegments first all = discoverSegments first files ↔
      ∀ search, SegmentSearch.ofFirst first = .ok search →
        (∃ file ∈ files, search.Unreadable file) ∨ ∀ file ∈ extras, search.Overlooks file :=
  discoverSegments_extras_iff hall

/-- The bytes start with a file header of a format generation. -/
def carriesFileHeader (content : Bytes) : Bool :=
  (Ewf1.FileHeader.parse content).toOption.isSome || (Ewf2.FileHeader.parse content).toOption.isSome

/-- A segment of thirteen bytes. -/
def headerOnly : DirFile where
  name := "image.E01"
  content := Ewf1.evfSignature ++ [1, 1, 0, 0, 0]

def requestedImage : RequestedPath := ⟨"image.E01", some "image.E01"⟩

/-- A program next to the segment does not matter. -/
theorem discoverSegments_unaffected_exe :
    discoverSegments requestedImage [headerOnly, ⟨"image.EXE", List.replicate 9 0⟩] =
      discoverSegments requestedImage [headerOnly] := by
  have hall : [headerOnly, ⟨"image.EXE", List.replicate 9 0⟩].Perm
      ([headerOnly] ++ [⟨"image.EXE", List.replicate 9 0⟩]) := List.Perm.refl _
  refine (discoverSegments_unaffected_iff hall).mpr ?_
  intro search hsearch
  have hfound : SegmentSearch.ofFirst requestedImage =
      .ok ⟨"image.E01", "image", 'E', false, Ewf1.evfSignature⟩ := rfl
  rw [← Except.ok.inj (hfound.symm.trans hsearch)]
  exact .inr (by decide)

/-- An empty file next to the segment makes the search fail. -/
theorem not_discoverSegments_unaffected :
    ¬ ∀ (first : RequestedPath) (files extras all : List DirFile), all.Perm (files ++ extras) →
      (∀ file ∈ extras, carriesFileHeader file.content = false ∧
        first.fileName.map fileStem = some (fileStem file.name)) →
      (all.map (·.name)).Nodup →
      discoverSegments first all = discoverSegments first files := by
  intro hall
  have hsame := hall requestedImage [headerOnly] [⟨"image.EXE", []⟩]
    [headerOnly, ⟨"image.EXE", []⟩] (List.Perm.refl _) (by decide) (by decide)
  revert hsame
  decide

end EwfImage

import Mathlib.Data.List.Basic

/-!
# Lines and columns

Texts that are read line by line, and tables that hold the names of their columns in one line
and the values in another, separated by tabs. A line that is written with a line feed behind it
is read back (`lines_append`) if it holds no line feed and does not end with a carriage return;
columns are read back from their line (`List.splitOn_intercalate`) if they hold no tab.

Both directions of a table are here: `joinTabs` writes a row, and the lemmas about it say what a
row holds. A text with `\r\n` ends is read like one with `\n` ends. The characters are any
Unicode characters, and a last line need not be ended.
-/

namespace Text

/-! ## Lines -/

/-- Characters up to and including each line feed. -/
def splitInclusive : List Char → List (List Char)
  | [] => []
  | c :: rest =>
    if c = '\n' then [c] :: splitInclusive rest
    else match splitInclusive rest with
      | [] => [[c]]
      | line :: lines => (c :: line) :: lines

/-- A line without its line feed and a carriage return in front of it. -/
def trimLine (line : List Char) : List Char :=
  if line.getLast? = some '\n' then
    let line := line.dropLast
    if line.getLast? = some '\r' then line.dropLast else line
  else line

/-- `str::lines`. -/
def lines (text : List Char) : List (List Char) := (splitInclusive text).map trimLine

/-- The line feed alone in place of each carriage return with a line feed. -/
def replaceCrLf : List Char → List Char
  | [] => []
  | c :: rest =>
    if c = '\r' ∧ rest.head? = some '\n' then replaceCrLf rest else c :: replaceCrLf rest

/-- A line feed behind the line is where the line ends. -/
structure IsLine (line : List Char) : Prop where
  noLineFeed : '\n' ∉ line
  ending : line.getLast? ≠ some '\r'

section

variable {line : List Char}

theorem splitInclusive_append (h : '\n' ∉ line) (rest : List Char) :
    splitInclusive (line ++ '\n' :: rest) = (line ++ ['\n']) :: splitInclusive rest := by
  induction line with
  | nil => rfl
  | cons c line ih =>
    obtain ⟨hc, hline⟩ := not_or.mp (mt List.mem_cons.mpr h)
    rw [List.cons_append, splitInclusive, if_neg (Ne.symm hc), ih hline]
    rfl

theorem trimLine_append (h : line.getLast? ≠ some '\r') : trimLine (line ++ ['\n']) = line := by
  unfold trimLine
  rw [List.getLast?_concat, if_pos rfl, List.dropLast_concat]
  exact if_neg h

theorem lines_append (h : IsLine line) (rest : List Char) :
    lines (line ++ '\n' :: rest) = line :: lines rest := by
  rw [lines, splitInclusive_append h.noLineFeed, List.map_cons, trimLine_append h.ending]
  rfl

theorem replaceCrLf_append (h : IsLine line) (rest : List Char) :
    replaceCrLf (line ++ '\n' :: rest) = line ++ '\n' :: replaceCrLf rest := by
  induction line with
  | nil =>
    rw [List.nil_append, replaceCrLf, if_neg (fun hcr => absurd hcr.1 (by decide))]
    rfl
  | cons c line ih =>
    obtain ⟨hc, hline⟩ := not_or.mp (mt List.mem_cons.mpr h.noLineFeed)
    have hkeep : ¬ (c = '\r' ∧ (line ++ '\n' :: rest).head? = some '\n') := by
      rintro ⟨rfl, hhead⟩
      cases line with
      | nil => exact h.ending rfl
      | cons next line =>
        cases hhead
        exact hline List.mem_cons_self
    have hrest : IsLine line := by
      refine ⟨hline, ?_⟩
      intro hlast
      cases line with
      | nil => cases hlast
      | cons next line => exact h.ending (by rw [List.getLast?_cons_cons, hlast])
    rw [List.cons_append, replaceCrLf, if_neg hkeep, ih hrest]
    rfl

theorem isLine_of_notMem (hlf : '\n' ∉ line) (hcr : '\r' ∉ line) : IsLine line := by
  refine ⟨hlf, ?_⟩
  intro hlast
  exact hcr (List.mem_of_getLast? hlast)

/-- A line is the line of what it ends with. -/
theorem IsLine.append {front : List Char} (hfront : '\n' ∉ front) (hline : IsLine line)
    (hne : line ≠ []) : IsLine (front ++ line) := by
  refine ⟨?_, ?_⟩
  · rw [List.mem_append]
    exact not_or.mpr ⟨hfront, hline.noLineFeed⟩
  · rw [List.getLast?_append_of_ne_nil _ hne]
    exact hline.ending

end

/-! ## Columns -/

/-- Columns separated by tabs. -/
def joinTabs (columns : List (List Char)) : List Char := ['\t'].intercalate columns

theorem joinTabs_cons {column : List Char} {columns : List (List Char)} (h : columns ≠ []) :
    joinTabs (column :: columns) = column ++ '\t' :: joinTabs columns := by
  unfold joinTabs
  rw [List.intercalate_cons_of_ne_nil h]
  simp

theorem joinTabs_append {front columns : List (List Char)} (hfront : front ≠ [])
    (h : columns ≠ []) : joinTabs (front ++ columns) = joinTabs front ++ '\t' :: joinTabs columns := by
  induction front with
  | nil => exact absurd rfl hfront
  | cons column front ih =>
    by_cases hempty : front = []
    · subst hempty
      rw [List.cons_append, List.nil_append, joinTabs_cons h]
      simp [joinTabs]
    · rw [List.cons_append, joinTabs_cons (by simp [hempty]), ih hempty, joinTabs_cons hempty,
        List.append_assoc]
      rfl

theorem notMem_joinTabs {columns : List (List Char)} {c : Char} (hc : c ≠ '\t')
    (h : ∀ column ∈ columns, c ∉ column) : c ∉ joinTabs columns := by
  induction columns with
  | nil => simp [joinTabs]
  | cons column columns ih =>
    have hcolumn := h column List.mem_cons_self
    have hrest := ih fun column hmem => h column (List.mem_cons_of_mem _ hmem)
    by_cases hempty : columns = []
    · subst hempty
      simpa [joinTabs] using hcolumn
    · rw [joinTabs_cons hempty, List.mem_append, List.mem_cons]
      exact not_or.mpr ⟨hcolumn, not_or.mpr ⟨hc, hrest⟩⟩

end Text

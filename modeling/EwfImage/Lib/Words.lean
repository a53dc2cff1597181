import EwfImage.Lib.Text
import Mathlib.Data.List.TakeWhile

/-!
# Words

The parts of a text between white space, and what keeps them: a word in front, white space in
front, and a change of the kind of white space.

The changes are maps on characters that keep which of them are white space, so that a header may
be rewritten before it is parsed. `splitOnce_closed` is for a text in which a separator does not
occur in front of where it was written.
-/

namespace Text

/-- The words of a text. -/
def splitWhitespace (text : List Char) : List (List Char) :=
  (text.splitOnP isWhitespace).filter (· ≠ [])

theorem splitWhitespace_cons {c : Char} (text : List Char) (hc : isWhitespace c = true) :
    splitWhitespace (c :: text) = splitWhitespace text := by
  have hempty : ∀ x ∈ ([] : List Char), isWhitespace x = false := by simp
  have hsplit := List.splitOnP_append_cons_of_forall_mem hempty c hc text
  rw [List.nil_append] at hsplit
  rw [splitWhitespace, hsplit, List.filter_cons]
  rfl

theorem splitWhitespace_replicate {c : Char} (count : Nat) (text : List Char)
    (hc : isWhitespace c = true) :
    splitWhitespace (List.replicate count c ++ text) = splitWhitespace text := by
  induction count with
  | zero => rfl
  | succ count ih =>
    rw [List.replicate_succ, List.cons_append, splitWhitespace_cons _ hc, ih]

theorem splitWhitespace_word {word : List Char} (hne : word ≠ [])
    (hword : ∀ c ∈ word, isWhitespace c = false) : splitWhitespace word = [word] := by
  rw [splitWhitespace, List.splitOnP_eq_singleton hword]
  simp [hne]

theorem splitWhitespace_append {word : List Char} {c : Char} (text : List Char) (hne : word ≠ [])
    (hword : ∀ c ∈ word, isWhitespace c = false) (hc : isWhitespace c = true) :
    splitWhitespace (word ++ c :: text) = word :: splitWhitespace text := by
  rw [splitWhitespace, List.splitOnP_append_cons_of_forall_mem hword c hc text, List.filter_cons,
    if_pos (by simpa using hne)]
  rfl

/-! ## Changes of separators -/

/-- A change of separators into separators changes no part. -/
theorem splitOnP_map {α : Type} {p : α → Bool} {f : α → α} (hsep : ∀ a, p (f a) = p a)
    (hkeep : ∀ a, p a = false → f a = a) (xs : List α) :
    (xs.map f).splitOnP p = xs.splitOnP p := by
  induction xs with
  | nil => rfl
  | cons x xs ih =>
    rw [List.map_cons, List.splitOnP_cons_eq_if_modifyHead,
      List.splitOnP_cons_eq_if_modifyHead, hsep, ih]
    by_cases hx : p x = true
    · rw [if_pos hx, if_pos hx]
    · rw [if_neg hx, if_neg hx, hkeep x (Bool.not_eq_true _ |>.mp hx)]

theorem splitWhitespace_map {f : Char → Char} (hsep : ∀ c, isWhitespace (f c) = isWhitespace c)
    (hkeep : ∀ c, isWhitespace c = false → f c = c) (text : List Char) :
    splitWhitespace (text.map f) = splitWhitespace text := by
  rw [splitWhitespace, splitOnP_map hsep hkeep, splitWhitespace]

/-- A character is a separator or in one of the parts. -/
theorem mem_splitOn (sep : Char) {c : Char} {text : List Char} (h : c ∈ text) :
    c = sep ∨ ∃ part ∈ text.splitOn sep, c ∈ part := by
  rw [List.splitOn_eq_splitOnP]
  induction text with
  | nil => exact absurd h List.not_mem_nil
  | cons first text ih =>
    rw [List.splitOnP_cons_eq_if_modifyHead]
    obtain ⟨part, parts, hparts⟩ := List.exists_cons_of_ne_nil
      (List.splitOnP_ne_nil (· == sep) text)
    rw [hparts] at ih ⊢
    by_cases hfirst : (first == sep) = true
    · rw [if_pos hfirst]
      rcases List.mem_cons.mp h with rfl | hmem
      · exact .inl (beq_iff_eq.mp hfirst)
      · rcases ih hmem with hsep | ⟨found, hfound, hc⟩
        · exact .inl hsep
        · exact .inr ⟨found, List.mem_cons_of_mem _ hfound, hc⟩
    · rw [if_neg hfirst, List.modifyHead_cons]
      rcases List.mem_cons.mp h with rfl | hmem
      · exact .inr ⟨c :: part, List.mem_cons_self, List.mem_cons_self⟩
      · rcases ih hmem with hsep | ⟨found, hfound, hc⟩
        · exact .inl hsep
        · rcases List.mem_cons.mp hfound with rfl | hrest
          · exact .inr ⟨_, List.mem_cons_self, List.mem_cons_of_mem _ hc⟩
          · exact .inr ⟨found, List.mem_cons_of_mem _ hrest, hc⟩

/-! ## Texts without a character -/

theorem splitOnce_eq_none {c : Char} {text : List Char} (h : c ∉ text) :
    splitOnce [c] text = none := by
  induction text with
  | nil => rfl
  | cons first text ih =>
    have hfirst : first ≠ c := fun heq => h (heq ▸ List.mem_cons_self)
    have hstart : [c].isPrefixOf (first :: text) = false := by
      simp [List.isPrefixOf, hfirst.symm]
    rw [splitOnce, hstart, ih fun hmem => h (List.mem_cons_of_mem _ hmem)]
    rfl

/-- The first place of a pattern is behind what does not have its first character. -/
theorem splitOnce_append {c : Char} {pattern before behind : List Char} (h : c ∉ before) :
    splitOnce (c :: pattern) (before ++ (c :: pattern ++ behind)) = some (before, behind) := by
  induction before with
  | nil =>
    rw [List.nil_append, List.cons_append, splitOnce, ← List.cons_append,
      if_pos (List.isPrefixOf_iff_prefix.mpr (List.prefix_append _ _)), List.drop_left]
  | cons first before ih =>
    have hfirst : first ≠ c := fun heq => h (heq ▸ List.mem_cons_self)
    have hstart : (c :: pattern).isPrefixOf (first :: (before ++ (c :: pattern ++ behind))) =
        false := by
      simp [List.isPrefixOf, hfirst.symm]
    rw [List.cons_append, splitOnce, hstart, ih fun hmem => h (List.mem_cons_of_mem _ hmem)]
    rfl

/-- Two texts have the same part up to the first place of a character. -/
theorem front_eq_of_notMem {last : Char} {front other behind rest : List Char} (hfront : last ∉ front)
    (hother : last ∉ other) (h : front ++ last :: behind = other ++ last :: rest) :
    front = other := by
  have htake : ∀ {front behind : List Char}, last ∉ front →
      (front ++ last :: behind).takeWhile (· ≠ last) = front := by
    intro front behind hmem
    have hne : ∀ c ∈ front, c ≠ last := fun c hc heq => hmem (heq ▸ hc)
    rw [List.takeWhile_append_of_pos fun c hc => decide_eq_true (hne c hc)]
    simp
  rw [← @htake front behind hfront, h, htake hother]

/-- A pattern that does not start in the front of a text is at the end of its back. -/
theorem suffix_of_append {c : Char} {pattern front back : List Char} (hfront : c ∉ front)
    (h : c :: pattern <:+ front ++ back) : c :: pattern <:+ back := by
  induction front with
  | nil => exact h
  | cons first front ih =>
    rw [List.mem_cons, not_or] at hfront
    rw [List.cons_append, List.suffix_cons_iff] at h
    rcases h with heq | hrest
    · exact absurd (List.cons.inj heq).1 hfront.1
    · exact ih hfront.2 hrest

/-- A pattern that ends with its only `last` is not found in a part up to the next `last` that does
not end with the pattern. -/
theorem splitOnce_closed {last : Char} {pattern part : List Char}
    (hpattern : last ∉ pattern) (hpart : last ∉ part) (hend : ¬ pattern <:+ part)
    (behind : List Char) :
    splitOnce (pattern ++ [last]) (part ++ last :: behind) =
      (splitOnce (pattern ++ [last]) behind).map fun (before, rest) =>
        (part ++ last :: before, rest) := by
  have hstart : ∀ suffix, suffix <:+ part →
      (pattern ++ [last]).isPrefixOf (suffix ++ last :: behind) = false := by
    intro suffix hsuffix
    rw [Bool.eq_false_iff, Ne, List.isPrefixOf_iff_prefix]
    rintro ⟨rest, hrest⟩
    rw [List.append_assoc, List.singleton_append] at hrest
    have hsame := front_eq_of_notMem hpattern (fun hmem => hpart (hsuffix.subset hmem)) hrest
    exact hend (hsame ▸ hsuffix)
  induction part with
  | nil =>
    rw [List.nil_append, splitOnce, ← List.nil_append (last :: behind),
      hstart [] (List.suffix_refl _)]
    rfl
  | cons c part ih =>
    have hrest := ih (fun hmem => hpart (List.mem_cons_of_mem _ hmem))
      (fun hsuffix => hend (hsuffix.trans (List.suffix_cons c part)))
      fun suffix hsuffix => hstart suffix (hsuffix.trans (List.suffix_cons c part))
    rw [List.cons_append, splitOnce, ← List.cons_append, hstart _ (List.suffix_refl _), hrest,
      Option.map_map]
    rfl

/-- A text that starts and ends with a character other than white space is trimmed. -/
theorem trim_eq_self {first last : Char} {text : List Char} (hfirst : isWhitespace first = false)
    (hlast : isWhitespace last = false) (hstart : text.head? = some first)
    (hend : text.getLast? = some last) : trim text = text := by
  have hdrop : text.dropWhile isWhitespace = text := by
    cases text with
    | nil => rfl
    | cons c text =>
      cases hstart
      rw [List.dropWhile_cons, hfirst]
      rfl
  have hreverse : text.reverse.dropWhile isWhitespace = text.reverse := by
    have hhead : text.reverse.head? = some last := by
      rw [List.head?_reverse]
      exact hend
    cases hrev : text.reverse with
    | nil => rfl
    | cons c rest =>
      rw [hrev] at hhead
      cases hhead
      rw [List.dropWhile_cons, hlast]
      rfl
  rw [trim, hdrop, hreverse, List.reverse_reverse]

/-- White space is dropped alike in front of characters and of what they are escaped to. -/
theorem dropWhile_flatMap {α : Type} {p : α → Bool} {f : α → List α}
    (hsame : ∀ a, p a = true → f a = [a])
    (hother : ∀ a, p a = false → ∃ first rest, f a = first :: rest ∧ p first = false)
    (xs : List α) : (xs.flatMap f).dropWhile p = (xs.dropWhile p).flatMap f := by
  induction xs with
  | nil => rfl
  | cons a xs ih =>
    rw [List.flatMap_cons, List.dropWhile_cons]
    by_cases ha : p a = true
    · rw [hsame a ha, if_pos ha, List.singleton_append, List.dropWhile_cons, if_pos ha, ih]
    · obtain ⟨first, rest, hfirst, hp⟩ := hother a (Bool.not_eq_true _ |>.mp ha)
      rw [if_neg ha, hfirst, List.cons_append, List.dropWhile_cons, if_neg (by rw [hp]; simp),
        List.flatMap_cons, hfirst, List.cons_append]

theorem dropWhile_isWhitespace {text : List Char} (h : ∀ c ∈ text, isWhitespace c = false) :
    text.dropWhile isWhitespace = text := by
  cases text with
  | nil => rfl
  | cons c text => rw [List.dropWhile_cons, h c List.mem_cons_self, if_neg (by simp)]

theorem firstWord_eq_self {text : List Char} (h : ∀ c ∈ text, isWhitespace c = false) :
    firstWord text = text := by
  rw [firstWord, dropWhile_isWhitespace h, List.takeWhile_eq_self_iff]
  intro c hc
  rw [h c hc]
  rfl

theorem trim_eq_self_of_word {text : List Char} (h : ∀ c ∈ text, isWhitespace c = false) :
    trim text = text := by
  rw [trim, dropWhile_isWhitespace h,
    dropWhile_isWhitespace fun c hc => h c (List.mem_reverse.mp hc), List.reverse_reverse]

end Text

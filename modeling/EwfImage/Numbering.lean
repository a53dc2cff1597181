import EwfImage.Discovery
import Mathlib.Data.List.Lex

/-!
# The numbers of segments

The extensions of the segments of a set in the order of their numbers: two digits up to 99, behind
that two letters, whose carry goes into the letter in front of them. The order in which discovery
puts the names of a set is the order of the numbers (`segmentExtension_ordered`).

The statement is about every set of a first extension that the program accepts and every number
up to the last one with an extension, in letters of either case. The number is read back from
the extension by the function that discovery sorts with, so the order of the names is the order
of the numbers also across the carries. A directory may list the files in any order; their names
are distinct.
-/

namespace EwfImage

open Fallible Word

/-! ## Places -/

/-- The carry of a number, and the codes of its two digits or letters. -/
def segmentPlace (segmentNumber : Nat) : List Nat :=
  if segmentNumber ≤ 99 then [0, 48 + segmentNumber / 10, 48 + segmentNumber % 10]
  else [(segmentNumber - 100) / 676, 65 + (segmentNumber - 100) % 676 / 26,
    65 + (segmentNumber - 100) % 676 % 26]

theorem segmentPlace_lt {number later : Nat} (h : number < later) :
    segmentPlace number < segmentPlace later := by
  unfold segmentPlace
  split_ifs with hfirst hlast hlast <;>
    simp only [List.cons_lt_cons_iff, List.not_lt_nil, and_false, or_false, true_and]
  · omega
  · omega
  · omega
  · omega

/-- The codes of the upper case form of an extension. -/
def segmentCodes (letter : Nat) (isV2 : Bool) (segmentNumber : Nat) : List Nat :=
  match segmentPlace segmentNumber with
  | carry :: suffix => if isV2 then letter :: (88 + carry) :: suffix else (letter + carry) :: suffix
  | [] => []

theorem segmentCodes_lt (letter : Nat) (isV2 : Bool) {number later : Nat} (h : number < later) :
    segmentCodes letter isV2 number < segmentCodes letter isV2 later := by
  have hplace := segmentPlace_lt h
  have hcons : ∀ number, ∃ carry suffix, segmentPlace number = carry :: suffix := by
    intro number
    unfold segmentPlace
    split
    · exact ⟨_, _, rfl⟩
    · exact ⟨_, _, rfl⟩
  obtain ⟨carry, suffix, hnumber⟩ := hcons number
  obtain ⟨carry', suffix', hlater⟩ := hcons later
  rw [hnumber, hlater, List.cons_lt_cons_iff] at hplace
  rw [segmentCodes, segmentCodes, hnumber, hlater]
  cases isV2 with
  | false =>
    refine List.cons_lt_cons_iff.mpr (hplace.imp (fun h => ?_) fun h => ⟨by rw [h.1], h.2⟩)
    exact Nat.add_lt_add_left h letter
  | true =>
    refine List.cons_lt_cons_iff.mpr (.inr ⟨rfl, List.cons_lt_cons_iff.mpr ?_⟩)
    exact hplace.imp (fun h => Nat.add_lt_add_left h 88) fun h => ⟨by rw [h.1], h.2⟩

/-! ## Extensions -/

/-- The last number that the scheme of a set has an extension for. -/
def maximumSegmentNumber (firstPrefix : Char) (isV2 : Bool) : Nat :=
  if isV2 then 99 + 3 * 676 else 99 + (91 - firstPrefix.toUpper.toNat) * 676

/-- The first extension of a set, in upper or lower case. -/
structure IsFirstExtension (letter : Char) (isV2 : Bool) (first : String) : Prop where
  alpha : letter.isAlpha = true
  chars : isV2 = false ∧ first.toList = [letter, '0', '1'] ∨
    isV2 = true ∧ (first.toList = [letter, 'x', '0', '1'] ∨ first.toList = [letter, 'X', '0', '1'])

theorem toNat_lt_of_isAlpha {letter : Char} (h : letter.isAlpha = true) : letter.toNat < 128 := by
  unfold Char.isAlpha Char.isUpper Char.isLower at h
  simp only [Bool.or_eq_true, Bool.and_eq_true, decide_eq_true_eq] at h
  rcases h with ⟨_, hle⟩ | ⟨_, hle⟩
  · have hle' : letter.toNat ≤ 90 := hle
    omega
  · have hle' : letter.toNat ≤ 122 := hle
    omega

/-- The upper case form of a letter is one of the letters from A to Z. -/
theorem toUpper_bounds {letter : Char} (h : letter.isAlpha = true) :
    65 ≤ letter.toUpper.toNat ∧ letter.toUpper.toNat ≤ 90 := by
  have hall : ∀ n < 128, (Char.ofNat n).isAlpha = true →
      65 ≤ (Char.ofNat n).toUpper.toNat ∧ (Char.ofNat n).toUpper.toNat ≤ 90 := by
    decide
  have hletter := hall letter.toNat (toNat_lt_of_isAlpha h)
  rw [Char.ofNat_toNat] at hletter
  exact hletter h

/-- The characters with the codes of digits and of upper case letters. -/
theorem ofNat_upper {code : Nat} (hlow : 65 ≤ code) (hhigh : code ≤ 90) :
    (Char.ofNat code).toNat = code ∧ (Char.ofNat code).toUpper = Char.ofNat code ∧
      (Char.ofNat code).isUpper = true ∧ (Char.ofNat code).isAlpha = true := by
  have hall : ∀ code < 91, 65 ≤ code →
      (Char.ofNat code).toNat = code ∧ (Char.ofNat code).toUpper = Char.ofNat code ∧
        (Char.ofNat code).isUpper = true ∧ (Char.ofNat code).isAlpha = true := by
    decide
  exact hall code (by omega) hlow

theorem digitChar_upper {digit : Nat} (h : digit < 10) :
    (Nat.digitChar digit).toNat = 48 + digit ∧ (Nat.digitChar digit).toUpper = Nat.digitChar digit ∧
      (Nat.digitChar digit).isDigit = true := by
  have hall : ∀ digit < 10, (Nat.digitChar digit).toNat = 48 + digit ∧
      (Nat.digitChar digit).toUpper = Nat.digitChar digit ∧
        (Nat.digitChar digit).isDigit = true := by
    decide
  exact hall digit h

theorem toLower_toUpper {letter : Char} (h : letter.isAlpha = true) :
    letter.toUpper.toLower = letter.toLower := by
  have hall : ∀ n < 128, (Char.ofNat n).toUpper.toLower = (Char.ofNat n).toLower := by
    decide
  have hletter := hall letter.toNat (toNat_lt_of_isAlpha h)
  rw [Char.ofNat_toNat] at hletter
  exact hletter

/-- What an extension of a set is good for: its number, its recognition and its place in a name. -/
structure NumberedExtension (letter : Char) (isV2 : Bool) (segmentNumber : Nat) (ext : String) :
    Prop where
  codes : ext.toList.map (fun c => c.toUpper.toNat) =
    segmentCodes letter.toUpper.toNat isV2 segmentNumber
  recognized : isSegmentExtension ext letter.toUpper isV2 = true

/-- No extension with a number has a dot. -/
theorem NumberedExtension.noDot {letter : Char} {isV2 : Bool} {segmentNumber : Nat} {ext : String}
    (h : NumberedExtension letter isV2 segmentNumber ext) (hletter : letter.isAlpha = true) :
    '.' ∉ ext.toList := by
  intro hmem
  have hlow := (toUpper_bounds hletter).1
  have hcode : 46 ∈ segmentCodes letter.toUpper.toNat isV2 segmentNumber := by
    rw [← h.codes]
    exact List.mem_map.mpr ⟨'.', hmem, rfl⟩
  unfold segmentCodes segmentPlace at hcode
  split_ifs at hcode <;> simp only [List.mem_cons, List.not_mem_nil, or_false] at hcode <;> omega

section Letters

variable {letter : Char} (h : letter.isAlpha = true) {carry first second : Nat}
  (hfirst : first < 26) (hsecond : second < 26)

include h hfirst hsecond

/-- Letters behind a prefix, that may be a later one than that of the first segment. -/
theorem v1_letters (hcarry : letter.toUpper.toNat + carry ≤ 90) {ext : String}
    (hext : ext.toList = [Char.ofNat (letter.toUpper.toNat + carry), Char.ofNat (65 + first),
      Char.ofNat (65 + second)]) :
    ext.toList.map (fun c => c.toUpper.toNat) =
        [letter.toUpper.toNat + carry, 65 + first, 65 + second] ∧
      isSegmentExtension ext letter.toUpper false = true := by
  obtain ⟨hlow, hhigh⟩ := toUpper_bounds h
  obtain ⟨_, hupper, hisUpper, _⟩ := ofNat_upper hlow hhigh
  rw [Char.ofNat_toNat] at hupper hisUpper
  obtain ⟨hcode, hcodeUpper, _, _⟩ := ofNat_upper (Nat.le_add_right_of_le hlow) hcarry
  obtain ⟨hfirstCode, hfirstUpper, _, hfirstAlpha⟩ :=
    ofNat_upper (Nat.le_add_right 65 first) (by omega)
  obtain ⟨hsecondCode, hsecondUpper, _, hsecondAlpha⟩ :=
    ofNat_upper (Nat.le_add_right 65 second) (by omega)
  constructor
  · rw [hext]
    simp only [List.map_cons, List.map_nil, hcodeUpper, hfirstUpper, hsecondUpper, hcode,
      hfirstCode, hsecondCode]
  · rw [isSegmentExtension, hext]
    simp only [v1SegmentExtensionMatches, hcodeUpper, hupper]
    by_cases hsame : Char.ofNat (letter.toUpper.toNat + carry) = letter.toUpper
    · rw [if_pos hsame]
      simp [segmentSuffixMatches, hfirstAlpha, hsecondAlpha]
    · have hcarryPos : carry ≠ 0 := by
        rintro rfl
        rw [Nat.add_zero, Char.ofNat_toNat] at hsame
        exact hsame rfl
      have hlt : letter.toUpper < Char.ofNat (letter.toUpper.toNat + carry) := by
        rw [Char.lt_def, UInt32.lt_iff_toNat_lt]
        change letter.toUpper.toNat < (Char.ofNat (letter.toUpper.toNat + carry)).toNat
        omega
      have hle : Char.ofNat (letter.toUpper.toNat + carry) ≤ 'Z' := by
        rw [Char.le_def, UInt32.le_iff_toNat_le]
        change (Char.ofNat (letter.toUpper.toNat + carry)).toNat ≤ 90
        omega
      rw [if_neg hsame]
      simp [hisUpper, hlt, hle, hfirstAlpha, hsecondAlpha]

/-- Letters behind a prefix and a letter from x to z. -/
theorem v2_letters (hcarry : carry < 3) {ext : String}
    (hext : ext.toList = [letter.toUpper, Char.ofNat (120 + carry), Char.ofNat (65 + first),
      Char.ofNat (65 + second)]) :
    ext.toList.map (fun c => c.toUpper.toNat) =
        [letter.toUpper.toNat, 88 + carry, 65 + first, 65 + second] ∧
      isSegmentExtension ext letter.toUpper true = true := by
  obtain ⟨hlow, hhigh⟩ := toUpper_bounds h
  obtain ⟨_, hupper, _, _⟩ := ofNat_upper hlow hhigh
  rw [Char.ofNat_toNat] at hupper
  obtain ⟨hfirstCode, hfirstUpper, _, hfirstAlpha⟩ :=
    ofNat_upper (Nat.le_add_right 65 first) (by omega)
  obtain ⟨hsecondCode, hsecondUpper, _, hsecondAlpha⟩ :=
    ofNat_upper (Nat.le_add_right 65 second) (by omega)
  have hinfix : (Char.ofNat (120 + carry)).toUpper.toNat = 88 + carry ∧
      ((Char.ofNat (120 + carry)).toLower = 'x' ∨ (Char.ofNat (120 + carry)).toLower = 'y' ∨
        (Char.ofNat (120 + carry)).toLower = 'z') := by
    have hall : ∀ carry < 3, (Char.ofNat (120 + carry)).toUpper.toNat = 88 + carry ∧
        ((Char.ofNat (120 + carry)).toLower = 'x' ∨ (Char.ofNat (120 + carry)).toLower = 'y' ∨
          (Char.ofNat (120 + carry)).toLower = 'z') := by
      decide
    exact hall carry hcarry
  constructor
  · rw [hext]
    simp only [List.map_cons, List.map_nil, hupper, hinfix.1, hfirstUpper, hsecondUpper,
      hfirstCode, hsecondCode]
  · rw [isSegmentExtension, hext]
    rcases hinfix.2 with hx | hy | hz
    · simp [v2SegmentExtensionMatches, hx, segmentSuffixMatches, hfirstAlpha, hsecondAlpha]
    · simp [v2SegmentExtensionMatches, hy, hfirstAlpha, hsecondAlpha]
    · simp [v2SegmentExtensionMatches, hz, hfirstAlpha, hsecondAlpha]

end Letters

theorem numberedExtension_v1 {letter : Char} (h : letter.isAlpha = true) {segmentNumber : Nat}
    (hmax : segmentNumber ≤ maximumSegmentNumber letter false) :
    ∃ ext, v1SegmentExtension letter segmentNumber = .ok ext ∧
      NumberedExtension letter false segmentNumber ext := by
  obtain ⟨hlow, hhigh⟩ := toUpper_bounds h
  rw [maximumSegmentNumber, if_neg (by simp)] at hmax
  by_cases hdigits : segmentNumber ≤ 99
  · obtain ⟨_, hupper, _, _⟩ := ofNat_upper hlow hhigh
    rw [Char.ofNat_toNat] at hupper
    obtain ⟨htens, htensUpper, htensDigit⟩ := digitChar_upper (show segmentNumber / 10 < 10 by omega)
    obtain ⟨hones, honesUpper, honesDigit⟩ := digitChar_upper (show segmentNumber % 10 < 10 by omega)
    refine ⟨_, if_pos hdigits, ?_, ?_⟩
    · simp [segmentCodes, segmentPlace, hdigits, hupper, htensUpper, honesUpper, htens, hones]
    · simp [isSegmentExtension, v1SegmentExtensionMatches, segmentSuffixMatches, hupper, htensDigit,
        honesDigit]
  · have hlimit : u32Limit = 4294967296 := rfl
    have hcarry : (segmentNumber - 100) / 676 % u32Limit = (segmentNumber - 100) / 676 :=
      Nat.mod_eq_of_lt (by omega)
    have hcode : letter.toUpper.toNat + (segmentNumber - 100) / 676 ≤ 90 := by omega
    obtain ⟨_, _, hcodeIsUpper, _⟩ := ofNat_upper (Nat.le_add_right_of_le hlow) hcode
    have hvalid : (letter.toUpper.toNat + (segmentNumber - 100) / 676).isValidChar :=
      .inl (by omega)
    have hext : v1SegmentExtension letter segmentNumber =
        .ok ((Char.ofNat (letter.toUpper.toNat + (segmentNumber - 100) / 676)).toString ++
          alphaSuffix ((segmentNumber - 100) % 676)) := by
      rw [v1SegmentExtension, if_neg hdigits]
      dsimp only
      rw [show 26 * 26 = 676 from rfl, hcarry]
      rw [rejectIf_neg _ (by rintro (hlarge | hinvalid); omega; exact hinvalid hvalid), ok_bind,
        rejectIf_neg _ (by simpa using hcodeIsUpper)]
      rfl
    have hchars : ((Char.ofNat (letter.toUpper.toNat + (segmentNumber - 100) / 676)).toString ++
        alphaSuffix ((segmentNumber - 100) % 676)).toList =
          [Char.ofNat (letter.toUpper.toNat + (segmentNumber - 100) / 676),
            Char.ofNat (65 + (segmentNumber - 100) % 676 / 26),
            Char.ofNat (65 + (segmentNumber - 100) % 676 % 26)] := by
      rw [String.toList_append, alphaSuffix, String.toList_ofList, Char.toString_eq_singleton,
        String.toList_singleton]
      rfl
    obtain ⟨hcodes, hrecognized⟩ := v1_letters h
      (show (segmentNumber - 100) % 676 / 26 < 26 by omega)
      (show (segmentNumber - 100) % 676 % 26 < 26 by omega) hcode hchars
    refine ⟨_, hext, ?_, hrecognized⟩
    rw [hcodes]
    simp [segmentCodes, segmentPlace, hdigits]

theorem numberedExtension_v2 {letter : Char} (h : letter.isAlpha = true) {segmentNumber : Nat}
    (hmax : segmentNumber ≤ maximumSegmentNumber letter true) :
    ∃ ext, v2SegmentExtension letter segmentNumber = .ok ext ∧
      NumberedExtension letter true segmentNumber ext := by
  obtain ⟨hlow, hhigh⟩ := toUpper_bounds h
  rw [maximumSegmentNumber, if_pos rfl] at hmax
  by_cases hdigits : segmentNumber ≤ 99
  · obtain ⟨_, hupper, _, _⟩ := ofNat_upper hlow hhigh
    rw [Char.ofNat_toNat] at hupper
    obtain ⟨htens, htensUpper, htensDigit⟩ := digitChar_upper (show segmentNumber / 10 < 10 by omega)
    obtain ⟨hones, honesUpper, honesDigit⟩ := digitChar_upper (show segmentNumber % 10 < 10 by omega)
    refine ⟨_, if_pos hdigits, ?_, ?_⟩
    · simp [segmentCodes, segmentPlace, hdigits, hupper, htensUpper, honesUpper, htens, hones]
    · simp [isSegmentExtension, v2SegmentExtensionMatches, segmentSuffixMatches, htensDigit,
        honesDigit]
  · have hlimit : u32Limit = 4294967296 := rfl
    have hcarry : (120 + (segmentNumber - 100) / 676 % u32Limit) % u32Limit =
        120 + (segmentNumber - 100) / 676 := by
      rw [hlimit]
      omega
    have hcode : (segmentNumber - 100) / 676 < 3 := by omega
    have hvalid : (120 + (segmentNumber - 100) / 676).isValidChar := .inl (by omega)
    have hext : v2SegmentExtension letter segmentNumber =
        .ok (String.ofList [letter.toUpper, Char.ofNat (120 + (segmentNumber - 100) / 676)] ++
          alphaSuffix ((segmentNumber - 100) % 676)) := by
      rw [v2SegmentExtension, if_neg hdigits]
      dsimp only
      rw [show 26 * 26 = 676 from rfl, hcarry, rejectIf_neg _ (not_not_intro hvalid), ok_bind,
        rejectIf_neg _ (by omega)]
      rfl
    have hchars : (String.ofList [letter.toUpper, Char.ofNat (120 + (segmentNumber - 100) / 676)] ++
        alphaSuffix ((segmentNumber - 100) % 676)).toList =
          [letter.toUpper, Char.ofNat (120 + (segmentNumber - 100) / 676),
            Char.ofNat (65 + (segmentNumber - 100) % 676 / 26),
            Char.ofNat (65 + (segmentNumber - 100) % 676 % 26)] := by
      rw [String.toList_append, alphaSuffix, String.toList_ofList, String.toList_ofList]
      rfl
    obtain ⟨hcodes, hrecognized⟩ := v2_letters h
      (show (segmentNumber - 100) % 676 / 26 < 26 by omega)
      (show (segmentNumber - 100) % 676 % 26 < 26 by omega) hcode hchars
    refine ⟨_, hext, ?_, hrecognized⟩
    rw [hcodes]
    simp [segmentCodes, segmentPlace, hdigits]

/-- The numbers up to the maximum have extensions. -/
theorem numberedExtension {first : String} {isV2 : Bool} {letter : Char}
    (hfirst : IsFirstExtension letter isV2 first) {segmentNumber : Nat} (hmax : segmentNumber ≤ maximumSegmentNumber letter isV2) :
    ∃ ext, segmentExtension first isV2 segmentNumber = .ok ext ∧
      NumberedExtension letter isV2 segmentNumber ext := by
  obtain ⟨hletter, hfirst⟩ := hfirst
  have hhead : first.toList.headD 'E' = letter := by
    rcases hfirst with ⟨_, hchars⟩ | ⟨_, hchars | hchars⟩ <;> rw [hchars] <;> rfl
  unfold segmentExtension
  rw [hhead]
  by_cases hone : segmentNumber = 1
  · rw [if_pos hone]
    obtain ⟨hlow, hhigh⟩ := toUpper_bounds hletter
    obtain ⟨_, hupper, _, _⟩ := ofNat_upper hlow hhigh
    rw [Char.ofNat_toNat] at hupper
    have hlower := toLower_toUpper hletter
    rw [hone]
    rcases hfirst with ⟨rfl, hchars⟩ | ⟨rfl, hchars | hchars⟩
    · refine ⟨first, rfl, by rw [hchars]; rfl, ?_⟩
      rw [isSegmentExtension, hchars]
      simp [v1SegmentExtensionMatches, segmentSuffixMatches, hupper]
    · refine ⟨first, rfl, by rw [hchars]; rfl, ?_⟩
      rw [isSegmentExtension, hchars]
      simp [v2SegmentExtensionMatches, segmentSuffixMatches, hlower]
    · refine ⟨first, rfl, by rw [hchars]; rfl, ?_⟩
      rw [isSegmentExtension, hchars]
      simp [v2SegmentExtensionMatches, segmentSuffixMatches, hlower]
  · rw [if_neg hone]
    cases isV2 with
    | false => exact numberedExtension_v1 hletter hmax
    | true => exact numberedExtension_v2 hletter hmax

/-! ## Names -/

/-- The last dot of a name with an extension is the one in front of it. -/
theorem rsplitFileAtDot_eq {stem ext : String} (hstem : stem ≠ "") (hext : '.' ∉ ext.toList) :
    rsplitFileAtDot (stem ++ "." ++ ext) = (stem, some ext) := by
  have hchars : (stem ++ "." ++ ext).toList = stem.toList ++ '.' :: ext.toList := by
    rw [String.toList_append, String.toList_append, List.append_assoc]
    rfl
  have hafter : (((stem ++ "." ++ ext).toList.reverse.takeWhile (· ≠ '.')).reverse) =
      ext.toList := by
    have hne : ∀ c ∈ ext.toList.reverse, decide (c ≠ '.') = true := by
      intro c hc
      refine decide_eq_true fun heq => hext ?_
      rw [← heq]
      exact List.mem_reverse.mp hc
    rw [hchars, List.reverse_append, List.reverse_cons, List.append_assoc,
      List.takeWhile_append_of_pos hne]
    simp
  have hbefore : (stem ++ "." ++ ext).toList.take ((stem ++ "." ++ ext).toList.length -
      (ext.toList.length + 1)) = stem.toList := by
    rw [hchars]
    refine List.take_left' ?_
    simp
  have hfound : ((stem ++ "." ++ ext).toList.contains '.' && !stem.toList.isEmpty) = true := by
    rw [hchars]
    simp [hstem]
  unfold rsplitFileAtDot
  dsimp only
  rw [hafter, hbefore, if_pos hfound, String.ofList_toList, String.ofList_toList]

/-- The name of a segment next to the first one. -/
def segmentName (stem ext : String) : String := stem ++ "." ++ ext

section Names

variable {stem ext : String} (hstem : stem ≠ "") (hext : '.' ∉ ext.toList)

include hstem hext

theorem fileStem_segmentName : fileStem (segmentName stem ext) = stem :=
  congrArg Prod.fst (rsplitFileAtDot_eq hstem hext)

theorem fileExtension_segmentName : fileExtension (segmentName stem ext) = some ext :=
  congrArg Prod.snd (rsplitFileAtDot_eq hstem hext)

theorem extensionKey_segmentName :
    extensionKey (segmentName stem ext) = String.ofList (ext.toList.map Char.toUpper) := by
  rw [extensionKey, fileExtension_segmentName hstem hext]
  rfl

end Names

theorem lt_of_codes_lt {chars later : List Char}
    (h : chars.map Char.toNat < later.map Char.toNat) : chars < later := by
  induction chars generalizing later with
  | nil =>
    cases later with
    | nil => exact absurd h (List.not_lt_nil _)
    | cons c later => exact List.nil_lt_cons c later
  | cons c chars ih =>
    cases later with
    | nil => exact absurd h (List.not_lt_nil _)
    | cons c' later =>
      rw [List.map_cons, List.map_cons, List.cons_lt_cons_iff] at h
      rw [List.cons_lt_cons_iff]
      rcases h with hlt | ⟨heq, hrest⟩
      · refine .inl ?_
        rw [Char.lt_def, UInt32.lt_iff_toNat_lt]
        exact hlt
      · exact .inr ⟨Char.toNat_inj.mp heq, ih hrest⟩

/-- The keys of the names are in the order of the numbers. -/
theorem segmentKey_lt {letter : Char} (hletter : letter.isAlpha = true) {isV2 : Bool}
    {stem ext later : String} (hstem : stem ≠ "") {number laterNumber : Nat}
    (hext : NumberedExtension letter isV2 number ext)
    (hlater : NumberedExtension letter isV2 laterNumber later) (hlt : number < laterNumber) :
    segmentKey (segmentName stem ext) < segmentKey (segmentName stem later) := by
  have hcodes := segmentCodes_lt letter.toUpper.toNat isV2 hlt
  have hkeys : extensionKey (segmentName stem ext) < extensionKey (segmentName stem later) := by
    rw [extensionKey_segmentName hstem (hext.noDot hletter),
      extensionKey_segmentName hstem (hlater.noDot hletter), String.lt_iff_toList_lt,
      String.toList_ofList, String.toList_ofList]
    refine lt_of_codes_lt ?_
    rw [List.map_map, List.map_map]
    change ext.toList.map (fun c => c.toUpper.toNat) < later.toList.map (fun c => c.toUpper.toNat)
    rw [hext.codes, hlater.codes]
    exact hcodes
  rw [segmentKey, segmentKey, Prod.Lex.toLex_lt_toLex]
  exact .inl hkeys

/-- There is no extension behind the last one. -/
theorem segmentExtension_maximum {first : String} {isV2 : Bool} {letter : Char}
    (hfirst : IsFirstExtension letter isV2 first) :
    ∃ e, segmentExtension first isV2 (maximumSegmentNumber letter isV2 + 1) = .error e := by
  obtain ⟨hletter, hfirst⟩ := hfirst
  obtain ⟨hlow, hhigh⟩ := toUpper_bounds hletter
  have hhead : first.toList.headD 'E' = letter := by
    rcases hfirst with ⟨_, hchars⟩ | ⟨_, hchars | hchars⟩ <;> rw [hchars] <;> rfl
  unfold segmentExtension
  rw [hhead]
  cases isV2 with
  | false =>
    have hbehind : maximumSegmentNumber letter false + 1 =
        100 + (91 - letter.toUpper.toNat) * 676 := by
      rw [maximumSegmentNumber, if_neg (by simp)]
      omega
    rw [hbehind, if_neg (by omega), if_neg (by simp), v1SegmentExtension, if_neg (by omega)]
    dsimp only
    have hcode : letter.toUpper.toNat +
        (100 + (91 - letter.toUpper.toNat) * 676 - 100) / (26 * 26) % u32Limit = 91 := by
      have hlimit : u32Limit = 4294967296 := rfl
      rw [Nat.add_sub_cancel_left, Nat.mul_div_cancel _ (by decide), hlimit]
      omega
    rw [hcode, rejectIf_neg _ (by decide), ok_bind, rejectIf_pos _ (by decide)]
    exact ⟨_, rfl⟩
  | true =>
    have hbehind : maximumSegmentNumber letter true + 1 = 2128 := rfl
    rw [hbehind, if_neg (by decide), if_pos rfl]
    exact ⟨.unsupported "EWF2 writer segment count exceeds supported extensions", rfl⟩

/-! ## Discovery -/

/-- The search for a set next to its first segment. -/
def setSearch (letter : Char) (isV2 : Bool) (stem first : String) : SegmentSearch where
  requestedName := segmentName stem first
  stem
  firstPrefix := letter.toUpper
  isV2
  expectedSignature := expectedSegmentSignature letter.toUpper isV2

/-- The search that starts at a first segment. -/
theorem ofFirst_segmentName {first : String} {isV2 : Bool} {letter : Char}
    (hfirst : IsFirstExtension letter isV2 first) {stem : String} (hstem : stem ≠ "") (display : String) :
    SegmentSearch.ofFirst ⟨display, some (segmentName stem first)⟩ =
      .ok (setSearch letter isV2 stem first) := by
  obtain ⟨hletter, hfirst⟩ := hfirst
  have hlast : first.toList.head? = some letter ∧ (first.length == 4) = isV2 ∧
      '.' ∉ first.toList := by
    have hne : letter ≠ '.' := by
      rintro rfl
      exact absurd hletter (by decide)
    rcases hfirst with ⟨rfl, hchars⟩ | ⟨rfl, hchars | hchars⟩
    all_goals
      rw [← String.length_toList, hchars]
      simp [hne.symm]
  obtain ⟨hhead, hlength, hdot⟩ := hlast
  rw [SegmentSearch.ofFirst, okOr_some, ok_bind, fileExtension_segmentName hstem hdot,
    fileStem_segmentName hstem hdot]
  simp only [Option.getD_some, hhead, Option.map_some, okOr_some, ok_bind, hlength]
  rfl

/-- A file of a directory for each number. -/
def segmentFiles (stem : String) (exts : Nat → String) (content : Nat → Bytes)
    (numbers : List Nat) : List DirFile :=
  numbers.map fun number => ⟨segmentName stem (exts number), content number⟩

/-- Every segment number of a set, up to the last one that has an extension, is taken for a segment
by its extension, which tells the number even in upper case; and the segments of a directory are
found in the order of their numbers. -/
theorem segmentExtension_ordered {first : String} {isV2 : Bool} {letter : Char}
    (hfirst : IsFirstExtension letter isV2 first) :
    (∀ number, number ≤ maximumSegmentNumber letter isV2 → ∃ ext,
      segmentExtension first isV2 number = .ok ext ∧
        isSegmentExtension ext letter.toUpper isV2 = true) ∧
    (∃ e, segmentExtension first isV2 (maximumSegmentNumber letter isV2 + 1) = .error e) ∧
    (∀ number other ext otherExt, number ≤ maximumSegmentNumber letter isV2 →
      other ≤ maximumSegmentNumber letter isV2 → segmentExtension first isV2 number = .ok ext →
      segmentExtension first isV2 other = .ok otherExt →
      ext.toList.map Char.toUpper = otherExt.toList.map Char.toUpper → number = other) ∧
    ∀ (stem display : String) (numbers : List Nat) (exts : Nat → String) (content : Nat → Bytes)
      (files : List DirFile), stem ≠ "" → numbers ≠ [] → numbers.Pairwise (· < ·) →
      (∀ number ∈ numbers, number ≤ maximumSegmentNumber letter isV2 ∧
        segmentExtension first isV2 number = .ok (exts number) ∧
        (number ≠ 1 → 8 ≤ (content number).length ∧
          (content number).take 8 = expectedSegmentSignature letter.toUpper isV2)) →
      files.Perm (segmentFiles stem exts content numbers) →
      discoverSegments ⟨display, some (segmentName stem first)⟩ files =
        .ok (numbers.map fun number => segmentName stem (exts number)) := by
  have hnumbered : ∀ {number ext}, number ≤ maximumSegmentNumber letter isV2 →
      segmentExtension first isV2 number = .ok ext → NumberedExtension letter isV2 number ext := by
    intro number ext hmax hext
    obtain ⟨found, hfound, hnumber⟩ := numberedExtension hfirst hmax
    rw [hext] at hfound
    cases hfound
    exact hnumber
  refine ⟨fun number hmax => ?_, ?_, fun number other ext otherExt hmax hotherMax hext hother hsame => ?_,
    fun stem display numbers exts content files hstem hne hsorted hnumbers hfiles => ?_⟩
  · obtain ⟨ext, hext, hnumber⟩ := numberedExtension hfirst hmax
    exact ⟨ext, hext, hnumber.recognized⟩
  · exact segmentExtension_maximum hfirst
  · have hcodes : ∀ ext : String, ext.toList.map (fun c => c.toUpper.toNat) =
        (ext.toList.map Char.toUpper).map Char.toNat := by
      intro ext
      rw [List.map_map]
      rfl
    have hsameCodes : segmentCodes letter.toUpper.toNat isV2 number =
        segmentCodes letter.toUpper.toNat isV2 other := by
      rw [← (hnumbered hmax hext).codes, ← (hnumbered hotherMax hother).codes, hcodes, hcodes, hsame]
    rcases lt_trichotomy number other with hlt | heq | hgt
    · exact absurd hsameCodes (segmentCodes_lt _ _ hlt).ne
    · exact heq
    · exact absurd hsameCodes.symm (segmentCodes_lt _ _ hgt).ne
  · have hext : ∀ number ∈ numbers, NumberedExtension letter isV2 number (exts number) :=
      fun number hnumber => hnumbered (hnumbers number hnumber).1 (hnumbers number hnumber).2.1
    have hsearch := ofFirst_segmentName hfirst hstem display
    have hfile : ∀ file ∈ files, ∃ number ∈ numbers,
        file = ⟨segmentName stem (exts number), content number⟩ := by
      intro file hfile
      obtain ⟨number, hnumber, rfl⟩ := List.mem_map.mp (hfiles.mem_iff.mp hfile)
      exact ⟨number, hnumber, rfl⟩
    have hrequested : ∀ number ∈ numbers, number = 1 → exts number = first := by
      rintro number hnumber rfl
      have hone := (hnumbers 1 hnumber).2.1
      rw [segmentExtension, if_pos rfl] at hone
      exact (Except.ok.inj hone).symm
    have hreadable : ∀ file ∈ files, ¬ (setSearch letter isV2 stem first).Unreadable file := by
      intro file hmem hunreadable
      obtain ⟨number, hnumber, rfl⟩ := hfile file hmem
      by_cases hone : number = 1
      · refine hunreadable.2.1 ?_
        rw [hrequested number hnumber hone]
        rfl
      · exact absurd ((hnumbers number hnumber).2.2 hone).1 (Nat.not_le.mpr hunreadable.2.2)
    have haccepted : files.filter (setSearch letter isV2 stem first).accepts = files := by
      rw [List.filter_eq_self]
      intro file hmem
      obtain ⟨number, hnumber, rfl⟩ := hfile file hmem
      have hdot := (hext number hnumber).noDot hfirst.alpha
      rw [SegmentSearch.accepts, SegmentSearch.isCandidate]
      dsimp only [setSearch]
      rw [fileStem_segmentName hstem hdot, fileExtension_segmentName hstem hdot, Option.any_some,
        (hext number hnumber).recognized]
      by_cases hone : number = 1
      · rw [hrequested number hnumber hone]
        simp
      · rw [((hnumbers number hnumber).2.2 hone).2]
        simp
    have hnonempty : files ≠ [] := by
      rintro rfl
      have hempty := hfiles.nil_eq
      rw [segmentFiles, eq_comm, List.map_eq_nil_iff] at hempty
      exact hne hempty
    have hkeys : (numbers.map fun number => segmentName stem (exts number)).Pairwise
        fun name later => segmentKey name ≤ segmentKey later := by
      rw [List.pairwise_map]
      refine hsorted.imp_of_mem fun hnumber hlater hlt => ?_
      exact (segmentKey_lt hfirst.alpha hstem (hext _ hnumber) (hext _ hlater) hlt).le
    have hnames : (files.map (·.name)).Perm
        (numbers.map fun number => segmentName stem (exts number)) := by
      have hmap := hfiles.map (·.name)
      rw [segmentFiles, List.map_map] at hmap
      exact hmap
    rw [discoverSegments_eq hsearch hreadable, haccepted, if_neg hnonempty,
      sortSegments_eq_of_perm hnames, hkeys.insertionSort_eq]

/-- A set in lower case up to the first carry, in a directory that lists it backwards. -/
theorem segmentExtension_ordered_carry :
    discoverSegments ⟨"image.e01", some "image.e01"⟩
        [⟨"image.FAA", Ewf1.evfSignature⟩, ⟨"image.EZZ", Ewf1.evfSignature⟩,
          ⟨"image.EAA", Ewf1.evfSignature⟩, ⟨"image.E99", Ewf1.evfSignature⟩, ⟨"image.e01", []⟩] =
      .ok ["image.e01", "image.E99", "image.EAA", "image.EZZ", "image.FAA"] := by
  have hfirst : IsFirstExtension 'e' false "e01" := ⟨by decide, .inl ⟨rfl, by decide⟩⟩
  obtain ⟨_, _, _, hordered⟩ := segmentExtension_ordered hfirst
  exact hordered "image" "image.e01" [1, 99, 100, 775, 776]
    (fun number => if number = 1 then "e01" else if number = 99 then "E99"
      else if number = 100 then "EAA" else if number = 775 then "EZZ" else "FAA")
    (fun number => if number = 1 then [] else Ewf1.evfSignature) _ (by decide) (by decide) (by decide)
    (by decide) (by decide)

end EwfImage

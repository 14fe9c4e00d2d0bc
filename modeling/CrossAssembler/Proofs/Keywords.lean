import CrossAssembler.Instruction
import Mathlib

/-!
# Keywords have ASCII spellings only

A token is compared with a keyword by the lower-case forms of both. In Unicode a character may have
a lower-case form of several characters, and two characters beyond ASCII have one with an ASCII
letter in it: the Kelvin sign, whose form is the small k, and the capital I with a dot above, whose
form is the small i with a dot behind it. No keyword has a K, and none has the dot, so a token that
matches a keyword is written in ASCII, letter for letter (`keyword_matches_ascii_only`).

* `Is` says that the characters of a token are the letters of a keyword, each as a capital or as a
  small letter. A token matches a keyword in plain capitals if and only if it is the keyword in this
  sense (`sameLetters_iff`).
* In a vocabulary whose members all have their own keyword, a token is the keyword of a member if
  and only if the member is found (`find?_eq_some_iff`), so the order in which the members are tried
  plays no part.
* `Names` reads a token by a table of keywords; a table that lists the members of a vocabulary
  agrees with the search (`names_members_iff`).
-/

namespace List

variable {α β γ : Type}

theorem map_eq_map_iff_forall₂ {f : α → γ} {g : β → γ} {as : List α} {bs : List β} :
    as.map f = bs.map g ↔ Forall₂ (fun a b => f a = g b) as bs := by
  rw [← forall₂_map_right_iff, ← forall₂_map_left_iff, forall₂_eq_eq_eq]

/-- In a list whose members have keys of their own, the member with a key is the one found by it. -/
theorem find?_key_eq_some_iff [BEq γ] [LawfulBEq γ] {key : α → γ} {as : List α}
    (h : (as.map key).Nodup) {k : γ} {a : α} :
    as.find? (fun other => k == key other) = some a ↔ a ∈ as ∧ k = key a := by
  constructor
  · intro hfind
    have hkey := find?_some hfind
    exact ⟨mem_of_find?_eq_some hfind, beq_iff_eq.1 hkey⟩
  · rintro ⟨ha, rfl⟩
    cases hfind : as.find? (fun other => key a == key other) with
    | none => exact absurd (beq_self_eq_true (key a)) (find?_eq_none.1 hfind a ha)
    | some other =>
      have hkey := find?_some hfind
      rw [inj_on_of_nodup_map h ha (mem_of_find?_eq_some hfind) (beq_iff_eq.1 hkey)]

end List

namespace CrossAssembler

namespace Text

/-! ## Letters -/

/-- A capital and its small letter are the letters of one number. -/
theorem exists_letter_of_isUpper {c : Char} (h : c.isUpper = true) :
    ∃ k < 26, c = Char.ofNat (65 + k) ∧ c.toLower = Char.ofNat (97 + k) := by
  have hrange : 65 ≤ c.toNat ∧ c.toNat ≤ 90 := by
    simpa [Char.isUpper, UInt32.le_iff_toNat_le] using h
  refine ⟨c.toNat - 65, by omega, ?_, ?_⟩
  · rw [Nat.add_sub_cancel' hrange.1, Char.ofNat_toNat]
  · rw [Char.toLower_eq_of_isUpper h]
    congr 1
    omega

/-- What is the same for a capital and its small letter is the same for a character and its form as
a small letter. -/
theorem apply_toLower {α : Type} {g : Char → α}
    (hg : ∀ k < 26, g (Char.ofNat (97 + k)) = g (Char.ofNat (65 + k))) (c : Char) :
    g c.toLower = g c := by
  by_cases hc : c.isUpper = true
  · obtain ⟨k, hk, heq, hsmall⟩ := exists_letter_of_isUpper hc
    rw [hsmall, hg k hk, ← heq]
  · rw [Char.toLower_eq_of_not_isUpper hc]

/-- The character is a letter, as a capital or as a small letter. -/
def IsForm (c letter : Char) : Prop := c = letter.toUpper ∨ c = letter.toLower

instance (c letter : Char) : Decidable (IsForm c letter) := inferInstanceAs (Decidable (_ ∨ _))

theorem toLower_eq_toLower_iff {c letter : Char} :
    c.toLower = letter.toLower ↔ IsForm c letter := by
  constructor
  · intro h
    by_cases hupper : c.isUpper = true
    · left
      calc c = c.toUpper :=
            (Char.toUpper_eq_of_not_isLower (Char.not_isLower_of_isUpper hupper)).symm
        _ = c.toLower.toUpper := c.toUpper_toLower_eq_toUpper.symm
        _ = letter.toLower.toUpper := congrArg Char.toUpper h
        _ = letter.toUpper := letter.toUpper_toLower_eq_toUpper
    · right
      rw [← h, Char.toLower_eq_of_not_isUpper hupper]
  · rintro (rfl | rfl)
    · exact Char.toLower_toUpper_eq_toLower letter
    · exact Char.toLower_toLower_eq_toLower letter

/-! ## Lower-case forms -/

/-- The lower-case forms of a run are characters beyond ASCII, but for the small k. -/
theorem lower_of_mem_caseRuns {run : CaseRun} (hrun : run ∈ caseRuns) {point : Nat}
    (h : run.covers point = true) :
    run.lower point = 'k'.toNat ∨ 0x80 ≤ run.lower point ∧ (run.lower point).isValidChar := by
  have htable : ∀ run ∈ caseRuns, run.first = run.last ∧ run.target = 'k'.toNat ∨
      0x80 ≤ run.target ∧ (run.target + (run.last - run.first) < 0xD800 ∨
        0xDFFF < run.target ∧ run.target + (run.last - run.first) < 0x110000) := by
    decide +kernel
  simp only [CaseRun.covers, Bool.and_eq_true, decide_eq_true_eq] at h
  obtain ⟨⟨hfirst, hlast⟩, -⟩ := h
  rw [CaseRun.lower, Nat.isValidChar]
  rcases htable run hrun with ⟨hsingle, htarget⟩ | ⟨hbeyond, hvalid⟩
  · exact .inl (by omega)
  · exact .inr ⟨by omega, by omega⟩

theorem lowerChar_of_lt {c : Char} (h : c.toNat < 0x80) : lowerChar c = [c.toLower] :=
  if_pos h

/-- The lower-case form of a character beyond ASCII has such a character in it, or it is the small
k. -/
theorem exists_mem_lowerChar_of_le {c : Char} (h : 0x80 ≤ c.toNat) :
    ∃ d ∈ lowerChar c, 0x80 ≤ d.toNat ∨ d = 'k' := by
  rw [lowerChar, if_neg (Nat.not_lt.2 h)]
  split_ifs with hdotted
  · exact ⟨'\u0307', by simp, .inl (by decide)⟩
  · cases hfind : caseRuns.find? (·.covers c.toNat) with
    | none => exact ⟨c, List.mem_singleton.2 rfl, .inl h⟩
    | some run =>
      refine ⟨_, List.mem_singleton.2 rfl, ?_⟩
      have hcovers := List.find?_some hfind
      rcases lower_of_mem_caseRuns (List.mem_of_find?_eq_some hfind) hcovers with hk | ⟨hle, hvalid⟩
      · rw [hk]
        exact .inr (Char.ofNat_toNat 'k')
      · rw [Char.toNat_ofNat, if_pos hvalid]
        exact .inl hle

theorem lower_of_ascii {text : String} (h : ∀ c ∈ text.toList, c.toNat < 0x80) :
    lower text = text.toList.map Char.toLower := by
  rw [lower, List.map_eq_flatMap]
  exact List.flatMap_congr fun c hc => lowerChar_of_lt (h c hc)

theorem IsForm.lowerChar_eq {c letter : Char} (h : IsForm c letter) :
    lowerChar c = lowerChar letter := by
  have hsmall : ∀ c : Char, lowerChar c.toLower = lowerChar c := apply_toLower (by decide)
  rw [← hsmall c, toLower_eq_toLower_iff.2 h, hsmall]

end Text

namespace Keyword

open Text

variable {α β : Type}

/-! ## Keywords in plain capitals -/

/-- The token is the keyword, in any mixture of capitals and small letters. -/
def Is (keyword token : String) : Prop := List.Forall₂ IsForm token.toList keyword.toList

instance (keyword token : String) : Decidable (Is keyword token) :=
  inferInstanceAs (Decidable (List.Forall₂ _ _ _))

theorem Is.refl (keyword : String) : Is keyword keyword :=
  List.forall₂_same.2 fun _ _ => toLower_eq_toLower_iff.1 rfl

/-- The keyword consists of capitals, and none of them is a K. -/
def isPlain (keyword : String) : Bool := keyword.toList.all fun c => c.isUpper && c != 'K'

/-- The small letters of a keyword in plain capitals are in ASCII, and none of them is a k. -/
theorem toLower_of_isPlain {keyword : String} (h : isPlain keyword = true) {letter : Char}
    (hletter : letter ∈ keyword.toList) :
    letter.toNat < 0x80 ∧ letter.toLower.toNat < 0x80 ∧ letter.toLower ≠ 'k' := by
  have hall : ∀ k < 26, (Char.ofNat (65 + k)).toNat < 0x80 ∧ (Char.ofNat (97 + k)).toNat < 0x80 ∧
      (Char.ofNat (97 + k) = 'k' → Char.ofNat (65 + k) = 'K') := by
    decide
  have hplain := List.all_eq_true.1 h letter hletter
  rw [Bool.and_eq_true, bne_iff_ne] at hplain
  obtain ⟨k, hk, heq, hsmall⟩ := exists_letter_of_isUpper hplain.1
  obtain ⟨hcapital, hascii, hother⟩ := hall k hk
  rw [hsmall]
  exact ⟨heq ▸ hcapital, hascii, fun hne => hplain.2 (heq.trans (hother hne))⟩

/-- A token that matches a keyword in plain capitals is in ASCII. -/
theorem ascii_of_lower_eq {keyword word : String} (h : isPlain keyword = true)
    (hlower : lower word = keyword.toList.map Char.toLower) :
    ∀ c ∈ word.toList, c.toNat < 0x80 := by
  intro c hc
  by_contra hbeyond
  obtain ⟨d, hd, hforeign⟩ := exists_mem_lowerChar_of_le (Nat.not_lt.1 hbeyond)
  have hmem : d ∈ lower word := List.mem_flatMap.2 ⟨c, hc, hd⟩
  rw [hlower, List.mem_map] at hmem
  obtain ⟨letter, hletter, rfl⟩ := hmem
  obtain ⟨-, hascii, hk⟩ := toLower_of_isPlain h hletter
  rcases hforeign with hle | heq
  · omega
  · exact hk heq

/-- **A token matches a keyword letter for letter.** -/
theorem sameLetters_iff {keyword : String} (h : isPlain keyword = true) (word : String) :
    sameLetters word keyword = true ↔ Is keyword word := by
  have hkeyword : lower keyword = keyword.toList.map Char.toLower :=
    lower_of_ascii fun _ hletter => (toLower_of_isPlain h hletter).1
  rw [sameLetters, beq_iff_eq, Is]
  constructor
  · intro hlower
    have hword := lower_of_ascii (ascii_of_lower_eq h (hlower.trans hkeyword))
    rw [hword, hkeyword, List.map_eq_map_iff_forall₂] at hlower
    exact hlower.imp fun _ _ => toLower_eq_toLower_iff.1
  · intro hforms
    have hchars := List.map_eq_map_iff_forall₂.2 (hforms.imp fun _ _ => IsForm.lowerChar_eq)
    rw [lower, List.flatMap_def, hchars, ← List.flatMap_def, lower]

/-- The Kelvin sign has the small k as its lower-case form, but is no form of the letter. -/
example : Is "BITSHIFT" "BitShift" ∧ ¬ Is "K" "\u212A" ∧ sameLetters "\u212A" "K" = true := by
  decide +kernel

/-! ## Vocabularies -/

/-- All members are tried, their keywords are in plain capitals, and no two of them have the same
one. -/
class Lawful (α : Type) [Vocabulary α] : Prop where
  complete : ∀ member : α, member ∈ (Vocabulary.members : List α)
  plain : ∀ member : α, isPlain (spelling member) = true
  nodup : ((Vocabulary.members : List α).map fun member => lower (spelling member)).Nodup

instance : Lawful Mnemonic :=
  ⟨fun member => by cases member <;> decide, fun member => by cases member <;> decide,
    by decide +kernel⟩

instance : Lawful Connector :=
  ⟨fun member => by cases member <;> decide, fun member => by cases member <;> decide,
    by decide +kernel⟩

instance : Lawful Test :=
  ⟨fun member => by cases member <;> decide, fun member => by cases member <;> decide,
    by decide +kernel⟩

instance : Lawful Direction :=
  ⟨fun member => by cases member <;> decide, fun member => by cases member <;> decide,
    by decide +kernel⟩

instance : Lawful Register :=
  ⟨fun member => by cases member <;> decide, fun member => by cases member <;> decide,
    by decide +kernel⟩

instance : Lawful Alias :=
  ⟨fun member => by cases member <;> decide, fun member => by cases member <;> decide,
    by decide +kernel⟩

section

variable [Vocabulary α] [Lawful α]

theorem spells_iff {token : String} {member : α} :
    spells token member = true ↔ Is (spelling member) token :=
  sameLetters_iff (Lawful.plain member) token

/-- The member that is found is the one whose keyword the token is. -/
theorem find?_eq_some_iff {token : String} {member : α} :
    find? α token = some member ↔ Is (spelling member) token := by
  rw [← spells_iff, spells, sameLetters, beq_iff_eq]
  exact (List.find?_key_eq_some_iff Lawful.nodup).trans (and_iff_right (Lawful.complete member))

/-- A token spells one member of a vocabulary at most. -/
theorem spells_unique {token : String} {first second : α} (hfirst : spells token first = true)
    (hsecond : spells token second = true) : first = second := by
  rw [spells_iff, ← find?_eq_some_iff] at hfirst hsecond
  exact Option.some.inj (hfirst.symm.trans hsecond)

end

/-! ## Tables of keywords -/

/-- The token is the keyword of a value in a table. -/
def Names (table : List (String × β)) (token : String) (value : β) : Prop :=
  ∃ keyword, (keyword, value) ∈ table ∧ Is keyword token

section

variable [Vocabulary α] [Lawful α] {f : α → β} {token : String}

theorem names_members_iff {value : β} :
    Names ((Vocabulary.members : List α).map fun member => (spelling member, f member)) token
      value ↔ ∃ member, find? α token = some member ∧ f member = value := by
  simp only [Names, List.mem_map, Prod.mk.injEq, find?_eq_some_iff]
  constructor
  · rintro ⟨_, ⟨member, -, rfl, rfl⟩, h⟩
    exact ⟨member, h, rfl⟩
  · rintro ⟨member, h, rfl⟩
    exact ⟨_, ⟨member, Lawful.complete member, rfl, rfl⟩, h⟩

theorem forall_not_names_members_iff :
    (∀ value, ¬ Names ((Vocabulary.members : List α).map fun member => (spelling member, f member))
      token value) ↔ find? α token = none := by
  simp only [names_members_iff, Option.eq_none_iff_forall_ne_some]
  constructor
  · intro h member hmember
    exact h (f member) ⟨member, hmember, rfl⟩
  · rintro h value ⟨member, hmember, -⟩
    exact h member hmember

end

/-! ## All keywords -/

/-- The keywords of a vocabulary. -/
def spellings (α : Type) [Vocabulary α] : List String :=
  (Vocabulary.members : List α).map spelling

/-- All keywords of source text. -/
def all : List String :=
  spellings Mnemonic ++ spellings Connector ++ spellings Test ++ spellings Direction ++
    spellings Register ++ spellings Alias

theorem isPlain_of_mem_spellings [Vocabulary α] [Lawful α] {keyword : String}
    (h : keyword ∈ spellings α) : isPlain keyword = true := by
  obtain ⟨member, -, rfl⟩ := List.mem_map.1 h
  exact Lawful.plain member

theorem isPlain_of_mem_all {keyword : String} (h : keyword ∈ all) : isPlain keyword = true := by
  simp only [all, List.mem_append] at h
  rcases h with ((((h | h) | h) | h) | h) | h <;> exact isPlain_of_mem_spellings h

/-- A register is named by one character. -/
theorem length_of_find?_register {word : String} {reg : Register}
    (h : find? Register word = some reg) : word.length = 1 := by
  have hspelling : (spelling reg).toList.length = 1 := by
    cases reg <;> decide
  rw [← String.length_toList, List.Forall₂.length_eq (find?_eq_some_iff.1 h), hspelling]

end Keyword

open Keyword

/-- **Keywords match their ASCII spellings only.** A token matches a keyword if and only if it has
as many characters, and each of them is the letter of the keyword in its place, as a capital or as a
small letter. So a register is named by one character, and no token matches the keywords of two
mnemonics, two registers or two named addresses. -/
theorem keyword_matches_ascii_only {keyword : String} (h : keyword ∈ Keyword.all) (word : String) :
    (Text.sameLetters word keyword = true ↔ word.length = keyword.length ∧
      ∀ c letter, (c, letter) ∈ word.toList.zip keyword.toList →
        c = letter.toUpper ∨ c = letter.toLower) ∧
    (∀ reg, find? Register word = some reg → word.length = 1) ∧
    (∀ first second : Mnemonic, spells word first = true → spells word second = true →
      first = second) ∧
    (∀ first second : Register, spells word first = true → spells word second = true →
      first = second) ∧
    ∀ first second : Alias, spells word first = true → spells word second = true →
      first = second := by
  refine ⟨?_, fun _ => length_of_find?_register, fun _ _ => spells_unique, fun _ _ => spells_unique,
    fun _ _ => spells_unique⟩
  rw [sameLetters_iff (isPlain_of_mem_all h), Is, List.forall₂_iff_zip, String.length_toList,
    String.length_toList]
  rfl

/-- The capital I with a dot above is no I, though its lower-case form begins with the small i. -/
theorem keyword_matches_ascii_only_dottedCapitalI :
    "IF" ∈ Keyword.all ∧ Text.sameLetters "\u0130F" "IF" ≠ true ∧
      Text.sameLetters "iF" "IF" = true ∧ find? Register "b" = some .b ∧ "b".length = 1 := by
  have hmem : "IF" ∈ Keyword.all := by decide
  have hfound : find? Register "b" = some .b := by decide
  refine ⟨hmem, fun hsame => ?_, ?_, hfound, (keyword_matches_ascii_only hmem "b").2.1 .b hfound⟩
  · have hform := ((keyword_matches_ascii_only hmem "\u0130F").1.1 hsame).2 '\u0130' 'I' (by decide)
    exact absurd hform (by decide)
  · refine (keyword_matches_ascii_only hmem "iF").1.2 ⟨by decide, ?_⟩
    intro c letter hpair
    have hcases : c = 'i' ∧ letter = 'I' ∨ c = 'F' ∧ letter = 'F' := by simpa using hpair
    rcases hcases with ⟨rfl, rfl⟩ | ⟨rfl, rfl⟩
    · exact .inr (by decide)
    · exact .inl (by decide)

end CrossAssembler

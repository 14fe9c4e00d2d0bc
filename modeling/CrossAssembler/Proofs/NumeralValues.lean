import CrossAssembler.Instruction.Parse
import Mathlib.Data.List.Forall2
import Mathlib.Data.Nat.Digits.Defs
import Mathlib.Tactic.Ring

/-!
# The values of numerals

`Denotes` gives the forms of a numeral and the integer that each of them denotes, which may be of
any size: `Nat.ofDigits` of its digits, with its sign. A byte is read from a token if and only if
the token denotes one. Every other integer is reported as out of range, however many digits it is
written with, and every other token as no numeral (`readByte_reads_numerals`).

* `digit?_eq_some_iff`, `digits?_eq_some_iff`, `magnitude?_eq_some_iff` and `value?_eq_some_iff`:
  each reader finds what its relation says.
* `le_of_extend?_eq_some`: the number that is read so far never exceeds the one that is read in the
  end, so a numeral whose value fits into a word is read without leaving it.
-/

namespace CrossAssembler

namespace Numeral

/-! ## The language of numerals -/

/-- The character is the digit of a value in a radix up to sixteen, or its capital. -/
def IsDigit (radix : Nat) (c : Char) (value : Nat) : Prop :=
  value < radix ∧ (c = value.digitChar ∨ c = value.digitChar.toUpper)

/-- The characters, one or more, are the digits of a number, the most significant one first. -/
def AreDigits (radix : Nat) (cs : List Char) (n : Nat) : Prop :=
  cs ≠ [] ∧ ∃ values, List.Forall₂ (IsDigit radix) cs values ∧
    Nat.ofDigits radix values.reverse = n

/-- A numeral without a sign denotes a number. -/
inductive DenotesMagnitude : List Char → Nat → Prop where
  | hexadecimal {mark : Char} {cs : List Char} {n : Nat} (hmark : mark = 'x' ∨ mark = 'X')
      (h : AreDigits 16 cs n) : DenotesMagnitude ('0' :: mark :: cs) n
  | octal {cs : List Char} {n : Nat} (h : AreDigits 8 cs n) : DenotesMagnitude ('0' :: cs) n
  | decimal {cs : List Char} {n : Nat} (hlead : ∀ c rest, cs ≠ '0' :: c :: rest)
      (h : AreDigits 10 cs n) : DenotesMagnitude cs n

/-- A numeral denotes an integer. -/
inductive Denotes : List Char → Int → Prop where
  | negative {cs : List Char} {n : Nat} (h : DenotesMagnitude cs n) :
      Denotes ('-' :: cs) (-(n : Int))
  | positive {cs : List Char} {n : Nat} (h : DenotesMagnitude cs n) : Denotes ('+' :: cs) n
  | unsigned {cs : List Char} {n : Nat} (h : DenotesMagnitude cs n) : Denotes cs n

/-! ## Digits -/

theorem digit?_eq_some_iff_sixteen {radix : Nat} (hradix : radix ≤ 16) {c : Char} {d : Nat} :
    digit? radix c = some d ↔ digit? 16 c = some d ∧ d < radix := by
  simp only [digit?, Option.filter_eq_some_iff, decide_eq_true_iff]
  constructor
  · rintro ⟨hvalue, hd⟩
    exact ⟨⟨hvalue, by omega⟩, hd⟩
  · rintro ⟨⟨hvalue, -⟩, hd⟩
    exact ⟨hvalue, hd⟩

theorem digit?_eq_none_of_le {radix : Nat} {c : Char} (h : 103 ≤ c.toNat) :
    digit? radix c = none := by
  have hnot : ∀ high : Char, high.toNat < 103 → ¬ c ≤ high := by
    intro high hhigh hle
    have hle : c.toNat ≤ high.toNat := hle
    omega
  simp [digit?, hnot '9' (by decide), hnot 'f' (by decide), hnot 'F' (by decide)]

/-- A character is read as a digit if it is one. -/
theorem digit?_eq_some_iff {radix : Nat} (hradix : radix ≤ 16) {c : Char} {d : Nat} :
    digit? radix c = some d ↔ IsDigit radix c d := by
  -- the digits are among the first characters, of which each can be looked at
  have hread : ∀ n < 103, ∀ d ∈ digit? 16 (Char.ofNat n),
      Char.ofNat n = d.digitChar ∨ Char.ofNat n = d.digitChar.toUpper := by
    decide +kernel
  have hwritten : ∀ d < 16, digit? 16 d.digitChar = some d ∧
      digit? 16 d.digitChar.toUpper = some d := by
    decide +kernel
  rw [digit?_eq_some_iff_sixteen hradix]
  constructor
  · rintro ⟨hdigit, hd⟩
    by_cases hc : c.toNat < 103
    · have hread := hread c.toNat hc d
      rw [Char.ofNat_toNat] at hread
      exact ⟨hd, hread hdigit⟩
    · rw [digit?_eq_none_of_le (Nat.not_lt.1 hc)] at hdigit
      cases hdigit
  · rintro ⟨hd, rfl | rfl⟩
    · exact ⟨(hwritten d (by omega)).1, hd⟩
    · exact ⟨(hwritten d (by omega)).2, hd⟩

/-- Digits are appended to a number if all of them are digits, and count from the right. -/
theorem extend?_eq_some_iff {radix : Nat} (hradix : radix ≤ 16) {start n : Nat} {cs : List Char} :
    extend? radix start cs = some n ↔ ∃ values, List.Forall₂ (IsDigit radix) cs values ∧
      start * radix ^ cs.length + Nat.ofDigits radix values.reverse = n := by
  induction cs generalizing start with
  | nil => simp [extend?]
  | cons c cs ih =>
    rw [extend?, Option.bind_eq_some_iff]
    constructor
    · rintro ⟨d, hd, h⟩
      obtain ⟨values, hvalues, rfl⟩ := ih.1 h
      refine ⟨d :: values, .cons ((digit?_eq_some_iff hradix).1 hd) hvalues, ?_⟩
      rw [Nat.ofDigits_reverse_cons, ← hvalues.length_eq, List.length_cons]
      ring
    · rintro ⟨values, hvalues, rfl⟩
      obtain ⟨d, rest, hd, hrest, rfl⟩ := List.forall₂_cons_left_iff.1 hvalues
      refine ⟨d, (digit?_eq_some_iff hradix).2 hd, ih.2 ⟨rest, hrest, ?_⟩⟩
      rw [Nat.ofDigits_reverse_cons, ← hrest.length_eq, List.length_cons]
      ring

theorem extend?_append (radix value : Nat) (first second : List Char) :
    extend? radix value (first ++ second) =
      (extend? radix value first).bind fun value => extend? radix value second := by
  induction first generalizing value with
  | nil => rfl
  | cons c first ih =>
    rw [List.cons_append, extend?, extend?]
    cases digit? radix c with
    | none => rfl
    | some d => exact ih _

theorem digits?_eq_some_iff {radix : Nat} (hradix : radix ≤ 16) {cs : List Char} {n : Nat} :
    digits? radix cs = some n ↔ AreDigits radix cs n := by
  rw [digits?, AreDigits]
  cases cs with
  | nil => simp
  | cons c cs => simp [extend?_eq_some_iff hradix]

/-- The number that is read so far does not exceed the number that is read in the end. -/
theorem le_of_extend?_eq_some {radix start n : Nat} {cs : List Char}
    (h : extend? radix start cs = some n) : start ≤ n := by
  induction cs generalizing start with
  | nil => exact Nat.le_of_eq (Option.some.inj h)
  | cons c cs ih =>
    rw [extend?, Option.bind_eq_some_iff] at h
    obtain ⟨d, hd, h⟩ := h
    have hdigit : d < radix := of_decide_eq_true (Option.filter_eq_some_iff.1 hd).2
    calc start ≤ start * radix := Nat.le_mul_of_pos_right start (by omega)
      _ ≤ start * radix + d := Nat.le_add_right _ d
      _ ≤ n := ih h

/-- Each product and each sum on the way to a number is at most the number. -/
theorem exists_le_of_digits?_eq_some {radix n : Nat} {first second : List Char} {c : Char}
    (h : digits? radix (first ++ c :: second) = some n) : ∃ m d, extend? radix 0 first = some m ∧
      digit? radix c = some d ∧ m * radix + d ≤ n := by
  rw [digits?, if_neg (by simp), extend?_append, Option.bind_eq_some_iff] at h
  obtain ⟨m, hm, h⟩ := h
  rw [extend?, Option.bind_eq_some_iff] at h
  obtain ⟨d, hd, h⟩ := h
  exact ⟨m, d, hm, hd, le_of_extend?_eq_some h⟩

/-! ## Radix and sign -/

/-- The first two characters select the radix. -/
theorem magnitude?_cons_cons (c d : Char) (cs : List Char) : magnitude? (c :: d :: cs) =
    if c == '0' then
      if d == 'x' || d == 'X' then digits? 16 cs else digits? 8 (d :: cs)
    else digits? 10 (c :: d :: cs) := by
  unfold magnitude?
  split <;> simp_all

/-- A zero selects octal, unless a mark for hexadecimal follows it. -/
theorem magnitude?_zero_cons {c : Char} (hlower : c ≠ 'x') (hupper : c ≠ 'X')
    (cs : List Char) : magnitude? ('0' :: c :: cs) = digits? 8 (c :: cs) := by
  simp [magnitude?_cons_cons, hlower, hupper]

/-- What is no digit does not stand in front of digits. -/
theorem AreDigits.head_ne {radix n : Nat} {c other : Char} {cs : List Char}
    (h : AreDigits radix (c :: cs) n) (hradix : radix ≤ 16) (hother : digit? radix other = none) :
    c ≠ other := by
  rintro rfl
  obtain ⟨-, values, hvalues, -⟩ := h
  obtain ⟨d, -, hd, -⟩ := List.forall₂_cons_left_iff.1 hvalues
  rw [← digit?_eq_some_iff hradix, hother] at hd
  cases hd

theorem magnitude?_of_octal {cs : List Char} {n : Nat} (h : AreDigits 8 cs n) :
    magnitude? ('0' :: cs) = some n := by
  cases cs with
  | nil => exact absurd rfl h.1
  | cons c cs =>
    rw [magnitude?_zero_cons (h.head_ne (by decide) rfl) (h.head_ne (by decide) rfl)]
    exact (digits?_eq_some_iff (by decide)).2 h

theorem magnitude?_of_decimal {cs : List Char} {n : Nat}
    (hlead : ∀ c rest, cs ≠ '0' :: c :: rest) (h : AreDigits 10 cs n) :
    magnitude? cs = some n := by
  unfold magnitude?
  split
  · exact absurd rfl (hlead _ _)
  · exact absurd rfl (hlead _ _)
  · exact absurd rfl (hlead _ _)
  · exact (digits?_eq_some_iff (by decide)).2 h

theorem magnitude?_eq_some_iff {cs : List Char} {n : Nat} :
    magnitude? cs = some n ↔ DenotesMagnitude cs n := by
  constructor
  · intro h
    unfold magnitude? at h
    split at h
    · exact .hexadecimal (.inl rfl) ((digits?_eq_some_iff (by decide)).1 h)
    · exact .hexadecimal (.inr rfl) ((digits?_eq_some_iff (by decide)).1 h)
    · exact .octal ((digits?_eq_some_iff (by decide)).1 h)
    · rename_i hlead
      exact .decimal hlead ((digits?_eq_some_iff (by decide)).1 h)
  · rintro (⟨rfl | rfl, h⟩ | h | ⟨hlead, h⟩)
    · exact (digits?_eq_some_iff (by decide)).2 h
    · exact (digits?_eq_some_iff (by decide)).2 h
    · exact magnitude?_of_octal h
    · exact magnitude?_of_decimal hlead h

/-- A numeral without a sign does not begin with one. -/
theorem DenotesMagnitude.head_ne {c sign : Char} {cs : List Char} {n : Nat}
    (h : DenotesMagnitude (c :: cs) n) (hsign : digit? 10 sign = none) : c ≠ sign := by
  have hzero : '0' ≠ sign := by
    rintro rfl
    cases hsign
  cases h with
  | hexadecimal hmark h => exact hzero
  | octal h => exact hzero
  | decimal hlead h => exact h.head_ne (by decide) hsign

/-- The sign goes to the magnitude, seen as an integer. -/
theorem map_magnitude?_eq_some_iff {sign : Int → Int} {cs : List Char} {value : Int} :
    ((magnitude? cs >>= fun n => pure (n : Int)).map sign) = some value ↔
      ∃ n : Nat, DenotesMagnitude cs n ∧ sign n = value := by
  simp only [← magnitude?_eq_some_iff]
  cases magnitude? cs <;> simp

/-- A token is read as an integer if it denotes the integer. -/
theorem value?_eq_some_iff {token : String} {value : Int} :
    value? token = some value ↔ Denotes token.toList value := by
  unfold value?
  constructor
  · intro h
    split at h
    · rename_i heq
      obtain ⟨n, hn, rfl⟩ := map_magnitude?_eq_some_iff.1 h
      rw [heq]
      exact .negative hn
    · rename_i heq
      obtain ⟨n, hn, rfl⟩ := map_magnitude?_eq_some_iff.1 h
      rw [heq]
      exact .positive hn
    · obtain ⟨n, hn, rfl⟩ := map_magnitude?_eq_some_iff.1 h
      exact .unsigned hn
  · intro h
    generalize token.toList = cs at h
    cases h with
    | negative h => exact map_magnitude?_eq_some_iff.2 ⟨_, h, rfl⟩
    | positive h => exact map_magnitude?_eq_some_iff.2 ⟨_, h, rfl⟩
    | unsigned h =>
      split
      · exact absurd rfl (h.head_ne rfl)
      · exact absurd rfl (h.head_ne rfl)
      · exact map_magnitude?_eq_some_iff.2 ⟨_, h, rfl⟩

theorem value?_eq_none_iff {token : String} :
    value? token = none ↔ ∀ value, ¬ Denotes token.toList value := by
  simp only [Option.eq_none_iff_forall_ne_some, ne_eq, value?_eq_some_iff]

end Numeral

/-! ## Bytes -/

namespace Operand

open Numeral

theorem readInteger_eq_ok_iff {token : String} {value : Int} :
    readInteger token = .ok value ↔
      Denotes token.toList value ∧ value.natAbs < magnitudeBound := by
  rw [← value?_eq_some_iff]
  unfold readInteger
  cases value? token with
  | none => simp
  | some other =>
    by_cases hbound : other.natAbs < magnitudeBound
    · simp only [if_pos hbound, Except.ok.injEq, Option.some.injEq]
      exact ⟨fun h => ⟨h, h ▸ hbound⟩, And.left⟩
    · simp only [if_neg hbound, reduceCtorEq, Option.some.injEq, false_iff, not_and]
      rintro rfl
      exact hbound

/-- What the reading of a byte comes to. A magnitude of more than sixty-three bits is out of the
range of a byte as well, so it does not matter that it is sorted out first. -/
theorem readByte_eq (token : String) : readByte token =
    match value? token with
    | none => .error (.notNumeric token)
    | some value =>
      if 0 ≤ value ∧ value ≤ 255 then .ok (UInt8.ofNat value.toNat)
      else .error (.byteOutOfRange token) := by
  unfold readByte readInteger
  cases value? token with
  | none => rfl
  | some value =>
    by_cases hrange : 0 ≤ value ∧ value ≤ 255
    · have hbound : value.natAbs < magnitudeBound := by
        rw [magnitudeBound]
        omega
      simp only [if_pos hbound, if_pos hrange]
      exact if_pos (by omega)
    · simp only [if_neg hrange]
      split
      · exact if_neg (by omega)
      · rfl

theorem readByte_eq_ok_iff {token : String} {byte : UInt8} :
    readByte token = .ok byte ↔ Denotes token.toList byte.toNat := by
  have hbyte := byte.toNat_lt
  rw [← value?_eq_some_iff, readByte_eq]
  cases value? token with
  | none => simp
  | some value =>
    by_cases hrange : 0 ≤ value ∧ value ≤ 255
    · simp only [if_pos hrange, Except.ok.injEq, Option.some.injEq]
      rw [← UInt8.toNat_inj, UInt8.toNat_ofNat']
      omega
    · simp only [if_neg hrange, reduceCtorEq, Option.some.injEq, false_iff]
      omega

theorem readByte_eq_byteOutOfRange_iff {token : String} :
    readByte token = .error (.byteOutOfRange token) ↔
      ∃ value, Denotes token.toList value ∧ ¬ (0 ≤ value ∧ value ≤ 255) := by
  simp only [← value?_eq_some_iff, readByte_eq]
  cases value? token with
  | none => simp
  | some value =>
    by_cases hrange : 0 ≤ value ∧ value ≤ 255
    · simp only [if_pos hrange, reduceCtorEq, false_iff]
      rintro ⟨_, ⟨⟩, hnot⟩
      exact hnot hrange
    · simp only [if_neg hrange, true_iff]
      exact ⟨value, rfl, hrange⟩

theorem readByte_eq_notNumeric_iff {token : String} :
    readByte token = .error (.notNumeric token) ↔ ∀ value, ¬ Denotes token.toList value := by
  rw [← value?_eq_none_iff, readByte_eq]
  cases value? token with
  | none => simp
  | some value => by_cases hrange : 0 ≤ value ∧ value ≤ 255 <;> simp [hrange]

/-- **Numerals are read exactly.** A token denotes at most one integer. A byte is read if and only
if the token denotes it; the token is reported as out of range if and only if it denotes an integer
that is no byte, whatever its size, and as no numeral if and only if it denotes none. No arithmetic
on the way leaves a word of sixty-four bits with a sign: an integer that is read is one whose
negative is in such a word too, and each product and sum on the way to a magnitude is at most the
magnitude. -/
theorem readByte_reads_numerals (token : String) :
    (∀ value other, Denotes token.toList value → Denotes token.toList other → value = other) ∧
    (∀ byte : UInt8, readByte token = .ok byte ↔ Denotes token.toList byte.toNat) ∧
    (readByte token = .error (.byteOutOfRange token) ↔
      ∃ value, Denotes token.toList value ∧ ¬ (0 ≤ value ∧ value ≤ 255)) ∧
    (readByte token = .error (.notNumeric token) ↔ ∀ value, ¬ Denotes token.toList value) ∧
    (∀ value, readInteger token = .ok value →
      -0x8000000000000000 < value ∧ value < 0x8000000000000000) ∧
    ∀ radix first c second n, digits? radix (first ++ c :: second) = some n →
      ∃ m d, extend? radix 0 first = some m ∧ digit? radix c = some d ∧ m * radix + d ≤ n := by
  refine ⟨fun value other h h' => ?_, fun byte => readByte_eq_ok_iff,
    readByte_eq_byteOutOfRange_iff, readByte_eq_notNumeric_iff, fun value h => ?_,
    fun radix first c second n h => exists_le_of_digits?_eq_some h⟩
  · rw [← value?_eq_some_iff] at h h'
    exact Option.some.inj (h.symm.trans h')
  · have hbound := (readInteger_eq_ok_iff.1 h).2
    rw [magnitudeBound] at hbound
    omega

theorem readByte_reads_numerals_manyDigits :
    readByte "+000000000000000000000000000000377" = .ok 255 ∧ readByte "-0" = .ok 0 ∧
    readByte "-0x10000000000000000" = .error (.byteOutOfRange "-0x10000000000000000") ∧
    readByte "0x" = .error (.notNumeric "0x") ∧
    (readInteger "-0x7FFFFFFFFFFFFFFF" = .ok (-0x7FFFFFFFFFFFFFFF) ∧
      -0x8000000000000000 < (-0x7FFFFFFFFFFFFFFF : Int)) ∧
    digits? 8 ['0', '0', '3', '7', '7'] = some 255 ∧ ∃ m d, extend? 8 0 ['0', '0', '3'] = some m ∧
      digit? 8 '7' = some d ∧ m * 8 + d ≤ 255 := by
  have hzeros : Denotes "+000000000000000000000000000000377".toList (255 : UInt8).toNat :=
    value?_eq_some_iff.1 (by decide +kernel)
  have hminus : Denotes "-0".toList (0 : UInt8).toNat := value?_eq_some_iff.1 (by decide +kernel)
  have hlarge : Denotes "-0x10000000000000000".toList (-0x10000000000000000) :=
    value?_eq_some_iff.1 (by decide +kernel)
  have hmark : ∀ value, ¬ Denotes "0x".toList value := value?_eq_none_iff.1 (by decide +kernel)
  have hword : readInteger "-0x7FFFFFFFFFFFFFFF" = .ok (-0x7FFFFFFFFFFFFFFF) :=
    readInteger_eq_ok_iff.2 ⟨value?_eq_some_iff.1 (by decide +kernel), by decide +kernel⟩
  have hdigits : digits? 8 ['0', '0', '3', '7', '7'] = some 255 := by decide
  exact ⟨((readByte_reads_numerals _).2.1 255).2 hzeros,
    ((readByte_reads_numerals _).2.1 0).2 hminus,
    (readByte_reads_numerals _).2.2.1.2 ⟨_, hlarge, by decide⟩,
    (readByte_reads_numerals _).2.2.2.1.2 hmark,
    ⟨hword, ((readByte_reads_numerals _).2.2.2.2.1 _ hword).1⟩,
    hdigits, (readByte_reads_numerals "").2.2.2.2.2 8 ['0', '0', '3'] '7' ['7'] 255 hdigits⟩

end Operand

end CrossAssembler

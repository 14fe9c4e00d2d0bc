import CrossAssembler.Proofs.NumeralValues
import Mathlib.Data.Nat.Digits.Lemmas

/-!
# Octal numerals are faithful

Bytes and addresses are written as octal numerals, and source text is read by numerals in which a
leading zero selects octal. The two agree:

* the digits of any number, with zeros in front or without, denote the number (`digits?_octal`);
* the numeral of a byte has four digits, of which the first is a zero (`octal_toNat`), so it is also
  what a source text may write for the byte (`Operand.readByte_octal`).

What `octal` writes for a number, of whatever size, consists of octal digits and is as short as four
digits allow. Different numbers have different numerals, and numerals of the same width are in the
order of their numbers (`octal_is_faithful`).

* `Numeral.extend?_bounds`: behind a number that has been read, digits select one of the numbers
  that begin with it.
* `Numeral.lt_of_extend?_lt`: of two numerals with equally many digits, the one of the smaller
  number is the smaller text. Where they part first, the digits decide, since those behind cannot
  catch up.
-/

namespace CrossAssembler

namespace Numeral

/-! ## Digits -/

/-- Up to eight, there is one character for each digit. -/
theorem digit?_eight_eq_some_iff {c : Char} {d : Nat} :
    digit? 8 c = some d ↔ d < 8 ∧ c = d.digitChar := by
  have hupper : ∀ d < 8, d.digitChar.toUpper = d.digitChar := by decide
  rw [digit?_eq_some_iff (by decide), IsDigit]
  refine and_congr_right fun hd => ?_
  rw [hupper d hd, or_self]

theorem extend?_digitChar {d : Nat} (h : d < 8) (value : Nat) (cs : List Char) :
    extend? 8 value (d.digitChar :: cs) = extend? 8 (value * 8 + d) cs := by
  rw [extend?, digit?_eight_eq_some_iff.2 ⟨h, rfl⟩, Option.bind_some]

/-- Zeros in front do not count. -/
theorem extend?_replicate_zero (n : Nat) (cs : List Char) :
    extend? 8 0 (List.replicate n '0' ++ cs) = extend? 8 0 cs := by
  induction n with
  | zero => rfl
  | succ n ih =>
    rw [List.replicate_succ, List.cons_append, ← ih]
    exact extend?_digitChar (d := 0) (by omega) 0 _

/-- The octal digits of a number denote it. -/
theorem extend?_toDigits (n : Nat) : extend? 8 0 (Nat.toDigits 8 n) = some n := by
  induction n using Nat.base_induction 8 (by omega) with
  | single d hd =>
    rw [Nat.toDigits_of_lt_base hd, extend?_digitChar hd, extend?, Nat.zero_mul, Nat.zero_add]
  | digit m d hd hm ih =>
    have hdigits := Nat.toDigits_append_toDigits (b := 8) (by omega) hm hd
    rw [← hdigits, extend?_append, ih, Option.bind_some, Nat.toDigits_of_lt_base hd,
      extend?_digitChar hd, extend?, Nat.mul_comm m 8]

/-! ## The order of digits -/

theorem digitChar_lt_digitChar {d e : Nat} (h : d < e) (he : e < 8) :
    d.digitChar < e.digitChar := by
  have hall : ∀ e < 8, ∀ d < e, d.digitChar < e.digitChar := by decide
  exact hall e he d h

/-- Digits that are appended to a number lead to one of the numbers that begin with it. -/
theorem extend?_bounds {start n : Nat} {cs : List Char} (h : extend? 8 start cs = some n) :
    start * 8 ^ cs.length ≤ n ∧ n < (start + 1) * 8 ^ cs.length := by
  induction cs generalizing start with
  | nil =>
    obtain rfl : start = n := Option.some.inj h
    simp
  | cons c cs ih =>
    rw [extend?, Option.bind_eq_some_iff] at h
    obtain ⟨d, hd, h⟩ := h
    have hdigit : d < 8 := (digit?_eight_eq_some_iff.1 hd).1
    obtain ⟨hlow, hhigh⟩ := ih h
    rw [List.length_cons, Nat.pow_succ']
    constructor
    · calc start * (8 * 8 ^ cs.length) = start * 8 * 8 ^ cs.length := (Nat.mul_assoc ..).symm
        _ ≤ (start * 8 + d) * 8 ^ cs.length := Nat.mul_le_mul_right _ (Nat.le_add_right _ d)
        _ ≤ n := hlow
    · calc n < (start * 8 + d + 1) * 8 ^ cs.length := hhigh
        _ ≤ (start + 1) * 8 * 8 ^ cs.length := Nat.mul_le_mul_right _ (by omega)
        _ = (start + 1) * (8 * 8 ^ cs.length) := Nat.mul_assoc ..

/-- Numerals with equally many digits are in the order of their numbers. -/
theorem lt_of_extend?_lt {start m n : Nat} {cs ds : List Char} (hlength : cs.length = ds.length)
    (hm : extend? 8 start cs = some m) (hn : extend? 8 start ds = some n) (h : m < n) :
    cs < ds := by
  induction cs generalizing start ds with
  | nil =>
    obtain rfl : ds = [] := List.length_eq_zero_iff.1 hlength.symm
    exact absurd (Option.some.inj (hm.symm.trans hn)) (Nat.ne_of_lt h)
  | cons c cs ih =>
    obtain ⟨d, ds, rfl⟩ := List.exists_cons_of_length_eq_add_one hlength.symm
    have hrest : cs.length = ds.length := Nat.succ.inj hlength
    rw [extend?, Option.bind_eq_some_iff] at hm hn
    obtain ⟨a, ha, hm⟩ := hm
    obtain ⟨b, hb, hn⟩ := hn
    obtain ⟨-, rfl⟩ := digit?_eight_eq_some_iff.1 ha
    obtain ⟨hdigit, rfl⟩ := digit?_eight_eq_some_iff.1 hb
    rw [List.cons_lt_cons_iff]
    rcases Nat.lt_trichotomy a b with hab | rfl | hab
    · exact .inl (digitChar_lt_digitChar hab hdigit)
    · exact .inr ⟨rfl, ih hrest hm hn⟩
    · -- a greater digit in front makes the greater number, whatever follows
      have hle : n ≤ m := calc
        n ≤ (start * 8 + b + 1) * 8 ^ ds.length := (extend?_bounds hn).2.le
        _ ≤ (start * 8 + a) * 8 ^ cs.length := hrest ▸ Nat.mul_le_mul_right _ (by omega)
        _ ≤ m := (extend?_bounds hm).1
      omega

end Numeral

/-! ## Numerals of four digits or more -/

open Numeral

theorem toList_octal (n : Nat) : (octal n).toList =
    List.replicate (octalWidth - (Nat.toDigits 8 n).length) '0' ++ Nat.toDigits 8 n := by
  rw [octal, String.toList_ofList, List.leftpad]

theorem extend?_octal (n : Nat) : extend? 8 0 (octal n).toList = some n := by
  rw [toList_octal, extend?_replicate_zero, extend?_toDigits]

/-- **An octal numeral denotes its number.** -/
theorem digits?_octal (n : Nat) : digits? 8 (octal n).toList = some n := by
  have hne : (octal n).toList ≠ [] := by simp [toList_octal]
  rw [digits?, if_neg (by simpa using hne), extend?_octal]

theorem isDigit_of_mem_octal {n : Nat} {c : Char} (h : c ∈ (octal n).toList) :
    c.isDigit = true := by
  rw [toList_octal, List.mem_append, List.mem_replicate] at h
  rcases h with ⟨-, rfl⟩ | h
  · rfl
  · exact Nat.isDigit_of_mem_toDigits (by omega) (by omega) h

theorem notMem_octal {c : Char} (h : c.isDigit = false) (n : Nat) : c ∉ (octal n).toList :=
  fun hc => absurd (isDigit_of_mem_octal hc) (by simp [h])

/-- The numeral of a byte is a zero and three more digits. -/
theorem octal_toNat (byte : UInt8) : octal byte.toNat = String.ofList
    ['0', (byte.toNat / 64).digitChar, (byte.toNat / 8 % 8).digitChar,
      (byte.toNat % 8).digitChar] := by
  have hbyte := byte.toNat_lt
  generalize byte.toNat = n at *
  apply String.toList_injective
  rw [toList_octal, String.toList_ofList]
  by_cases hone : n < 8
  · have hzero : n / 64 = 0 ∧ n / 8 % 8 = 0 ∧ n % 8 = n := by omega
    simp [Nat.toDigits_of_lt_base hone, hzero, octalWidth]
  · rw [Nat.toDigits_of_base_le (by omega) (by omega)]
    by_cases htwo : n / 8 < 8
    · have hzero : n / 64 = 0 ∧ n / 8 % 8 = n / 8 := by omega
      simp [Nat.toDigits_of_lt_base htwo, hzero, octalWidth]
    · have hthree : n / 8 / 8 < 8 ∧ n / 8 / 8 = n / 64 := by omega
      rw [Nat.toDigits_of_base_le (by omega) (by omega), Nat.toDigits_of_lt_base hthree.1]
      simp [hthree.2, octalWidth]

/-! ## Numerals in a source text -/

/-- What is written for a byte denotes it: the zero in front selects octal, and the digits behind it
are those of the byte. -/
theorem Numeral.denotes_octal (byte : UInt8) :
    Denotes (octal byte.toNat).toList (byte.toNat : Int) := by
  have hread := extend?_octal byte.toNat
  rw [octal_toNat, String.toList_ofList] at hread ⊢
  have hdigits : digits? 8 [(byte.toNat / 64).digitChar, (byte.toNat / 8 % 8).digitChar,
      (byte.toNat % 8).digitChar] = some byte.toNat :=
    (extend?_replicate_zero 1 _).symm.trans hread
  exact .unsigned (.octal ((digits?_eq_some_iff (by decide)).1 hdigits))

/-- What is written for a byte is read as the byte. -/
theorem Operand.readByte_octal (byte : UInt8) : readByte (octal byte.toNat) = .ok byte :=
  readByte_eq_ok_iff.2 (denotes_octal byte)

/-! ## Width and order -/

theorem octal_injective : Function.Injective octal := by
  intro m n h
  have hread := extend?_octal m
  rw [h, extend?_octal n] at hread
  exact (Option.some.inj hread).symm

theorem length_octal_le_iff {n k : Nat} : (octal n).length ≤ k ↔ 4 ≤ k ∧ n < 8 ^ k := by
  rw [octal, String.length_ofList, List.length_leftpad, octalWidth, Nat.max_le]
  exact and_congr_right fun hk => Nat.length_toDigits_le_iff (by decide) (by omega)

/-- A numeral has as many digits as its number, but at least four. -/
theorem length_octal (n : Nat) : (octal n).length = max 4 (Nat.digits 8 n).length := by
  refine eq_of_forall_ge_iff fun k => ?_
  rw [length_octal_le_iff, Nat.max_le, Nat.digits_length_le_iff (by decide)]

theorem length_octal_eq_four_iff {n : Nat} : (octal n).length = 4 ↔ n < 4096 := by
  have hge : 4 ≤ (octal n).length := length_octal n ▸ Nat.le_max_left ..
  have hle : (octal n).length ≤ 4 ↔ n < 4096 :=
    length_octal_le_iff.trans (and_iff_right (by decide))
  omega

/-- There is a zero in front only to fill up to four digits. -/
theorem length_octal_of_head? {n : Nat} (h : (octal n).toList.head? = some '0') :
    (octal n).length = 4 := by
  obtain ⟨cs, hcs⟩ := List.head?_eq_some_iff.1 h
  have hlength : (octal n).length = cs.length + 1 := by
    rw [← String.length_toList, hcs, List.length_cons]
  have hread : extend? 8 0 cs = some n := by
    rw [← extend?_octal n, hcs]
    exact (extend?_replicate_zero 1 cs).symm
  have hbound : n < 8 ^ cs.length := by simpa using (extend?_bounds hread).2
  have hge := length_octal n
  -- with four digits or more behind the zero, these would do without it
  by_contra hne
  have hshort : (octal n).length ≤ cs.length := length_octal_le_iff.2 ⟨by omega, hbound⟩
  omega

theorem octal_lt_octal {m n : Nat} (h : m < n) (hn : n < 4096) : octal m < octal n := by
  have hlength : (octal m).toList.length = (octal n).toList.length := by
    rw [String.length_toList, String.length_toList, length_octal_eq_four_iff.2 hn,
      length_octal_eq_four_iff.2 (h.trans hn)]
  exact String.lt_iff.2 (lt_of_extend?_lt hlength (extend?_octal m) (extend?_octal n) h)

/-- The characters of a numeral are octal digits. -/
theorem mem_octal_bounds {n : Nat} {c : Char} (h : c ∈ (octal n).toList) : '0' ≤ c ∧ c ≤ '7' := by
  have hdigits : ∀ d < 8, '0' ≤ d.digitChar ∧ d.digitChar ≤ '7' := by decide
  have hbounds : ∀ c d, IsDigit 8 c d → '0' ≤ c ∧ c ≤ '7' := by
    intro c d hd
    obtain ⟨hlt, rfl⟩ := digit?_eight_eq_some_iff.1 ((digit?_eq_some_iff (by decide)).2 hd)
    exact hdigits d hlt
  obtain ⟨-, values, hvalues, -⟩ := (digits?_eq_some_iff (by decide)).1 (digits?_octal n)
  exact ((List.forall₂_and_left _ _).1 (hvalues.imp fun c d hd => ⟨hbounds c d hd, hd⟩)).1 c h

/-- **Octal numerals are faithful.** The numeral of a number consists of octal digits and denotes
the number. It has as many digits as the number, but at least four, so there is a zero in front only
to reach four. No other number has the same numeral, and below 4096 the numerals of smaller numbers
come before it in the order of texts. -/
theorem octal_is_faithful (n : Nat) :
    (∀ c ∈ (octal n).toList, '0' ≤ c ∧ c ≤ '7') ∧
    AreDigits 8 (octal n).toList n ∧
    (octal n).length = max 4 (Nat.digits 8 n).length ∧
    ((octal n).toList.head? = some '0' → (octal n).length = 4) ∧
    (∀ m, octal m = octal n → m = n) ∧
    ∀ m, m < n → n < 4096 → octal m < octal n :=
  ⟨fun _ => mem_octal_bounds, (digits?_eq_some_iff (by decide)).1 (digits?_octal n),
    length_octal n, length_octal_of_head?, fun _ h => octal_injective h, fun _ => octal_lt_octal⟩

theorem octal_is_faithful_lastCell :
    (octal 0o377).toList.head? = some '0' ∧ (octal 0o377).length = 4 ∧ '3' ∈ (octal 0o377).toList ∧
      '3' ≤ '7' ∧ 0o77 < 0o377 ∧ 0o377 < 4096 ∧ octal 0o77 < octal 0o377 := by
  obtain ⟨hdigits, -, -, hzero, -, horder⟩ := octal_is_faithful 0o377
  have hhead : (octal 0o377).toList.head? = some '0' := by decide
  have hmem : '3' ∈ (octal 0o377).toList := by decide
  exact ⟨hhead, hzero hhead, hmem, (hdigits '3' hmem).2, by decide, by decide,
    horder 0o77 (by decide) (by decide)⟩

/-- The greatest address of a word takes twenty-two digits. -/
example : octal (2 ^ 64 - 1) = "1777777777777777777777" := by decide +kernel

end CrossAssembler

import Mathlib
import LinearCongruences.Json.Layout
import LinearCongruences.Json.Token

/-! Scalars that have been written are read back. A text and a word end by themselves. A number goes
on as long as its characters do, so what follows it matters. -/
namespace LinearCongruences.Json

/-- What stands after a value in a document: nothing, a mark, or a new line. -/
def Ends : List Char → Prop
  | [] => True
  | c :: _ => c = ',' ∨ c = ']' ∨ c = '\x7d' ∨ c = '\n'

variable {rest : List Char}

namespace Number

theorem head_toDigits {n : Nat} (positive : 0 < n) : (Nat.toDigits 10 n).head? ≠ some '0' := by
  induction n using Nat.strong_induction_on with
  | h n ih =>
    by_cases small : n < 10
    · rw [Nat.toDigits_of_lt_base small]
      have other : ∀ k < 10, 0 < k → Nat.digitChar k ≠ '0' := by decide
      simpa using other n small positive
    · rw [Nat.toDigits_of_base_le (by decide) (Nat.le_of_not_lt small), List.head?_append_of_ne_nil
        _ Nat.toDigits_ne_nil]
      exact ih (n / 10) (by omega) (by omega)

theorem someDigits_eq {digits : List Char} (some : digits ≠ []) (all : ∀ c ∈ digits, c.isDigit)
    (ends : Ends rest) : someDigits (digits ++ rest) = .ok (digits, rest) := by
  have stops : rest.takeWhile Char.isDigit = [] ∧ rest.dropWhile Char.isDigit = rest := by
    cases rest with
    | nil => exact ⟨rfl, rfl⟩
    | cons c cs => rcases ends with rfl | rfl | rfl | rfl <;> exact ⟨rfl, rfl⟩
  unfold someDigits
  rw [List.takeWhile_append_of_pos all, List.dropWhile_append_of_pos all, stops.1, stops.2]
  simp [some]

theorem wholePart_eq (n : Nat) (ends : Ends rest) :
    wholePart (Nat.toDigits 10 n ++ rest) = .ok (Nat.toDigits 10 n, rest) := by
  unfold wholePart
  rw [someDigits_eq Nat.toDigits_ne_nil
    (fun c => Nat.isDigit_of_mem_toDigits (by decide) (by decide)) ends]
  simp only [bind, Except.bind, pure, Except.pure]
  split
  · rename_i zeros
    by_cases positive : 0 < n
    · exact absurd (by rw [zeros]; rfl) (head_toDigits positive)
    · obtain rfl : n = 0 := by omega
      cases zeros
  · rfl

theorem fractionPart_eq (ends : Ends rest) : fractionPart rest = .ok (none, rest) := by
  cases rest with
  | nil => rfl
  | cons c cs => rcases ends with rfl | rfl | rfl | rfl <;> rfl

theorem exponentPart_eq (ends : Ends rest) : exponentPart rest = .ok (none, rest) := by
  cases rest with
  | nil => rfl
  | cons c cs => rcases ends with rfl | rfl | rfl | rfl <;> rfl

theorem le_ofDigitChars (cs : List Char) (n : Nat) : n ≤ Nat.ofDigitChars 10 cs n := by
  induction cs generalizing n with
  | nil => exact Nat.le_refl n
  | cons c cs ih =>
    rw [Nat.ofDigitChars_cons]
    exact Nat.le_trans (by omega) (ih _)

/-- No digit is dropped from a number that a word holds. -/
theorem absorb_eq {cs : List Char} {significand : Nat} (count : Nat)
    (fits : Nat.ofDigitChars 10 cs significand < wordBound) :
    absorb significand count cs =
      (Nat.ofDigitChars 10 cs significand, count + cs.length) := by
  induction cs generalizing significand count with
  | nil => rfl
  | cons c cs ih =>
    rw [Nat.ofDigitChars_cons, Nat.mul_comm] at fits ⊢
    rw [absorb, if_pos (Nat.lt_of_le_of_lt (le_ofDigitChars cs _) fits), ih _ fits]
    simp only [List.length_cons]
    congr 1
    omega

theorem readUnsigned_eq {n : Nat} (negative : Bool) (fits : n < wordBound)
    (signed : negative → 0 < n ∧ n ≤ signedWordBound) (ends : Ends rest) :
    readUnsigned negative (Nat.toDigits 10 n ++ rest) =
      .ok (.integer (if negative then -n else n), rest) := by
  have value : Nat.ofDigitChars 10 (Nat.toDigits 10 n) 0 = n :=
    Nat.ofDigitChars_toDigits (by decide) (by decide)
  unfold readUnsigned
  rw [wholePart_eq n ends]
  simp only [bind, Except.bind, fractionPart_eq ends, exponentPart_eq ends, ofParts,
    absorb_eq 0 (value.symm ▸ fits), value]
  cases negative with
  | false => simp [pure, Except.pure]
  | true => simp [signed rfl, pure, Except.pure]

/-- What a word can hold, signed or not. -/
def Whole (z : Int) : Prop := -(signedWordBound : Int) ≤ z ∧ z < wordBound

theorem read_write {z : Int} (whole : Whole z) (ends : Ends rest) :
    read (write (.integer z) ++ rest) = .ok (.integer z, rest) := by
  have bounds : signedWordBound < wordBound := by decide
  obtain ⟨low, high⟩ := whole
  by_cases negative : z < 0
  · rw [write, if_pos negative, List.cons_append, read,
      readUnsigned_eq true (by omega) (fun _ => by omega) ends]
    simp only [if_pos]
    congr 3
    omega
  · rw [write, if_neg negative]
    have digits := readUnsigned_eq (n := z.natAbs) false (by omega) nofun ends
    unfold read
    split
    · rename_i minus
      have digit : ∀ c ∈ Nat.toDigits 10 z.natAbs, c.isDigit :=
        fun c => Nat.isDigit_of_mem_toDigits (by decide) (by decide)
      cases shown : Nat.toDigits 10 z.natAbs with
      | nil => exact absurd shown Nat.toDigits_ne_nil
      | cons c cs =>
        rw [shown] at minus digit
        injection minus with same
        exact absurd (digit c List.mem_cons_self) (by subst same; decide)
    · rw [digits]
      simp only [Bool.false_eq_true, if_false]
      congr 3
      omega

theorem write_head (z : Int) :
    ∃ c cs, write (.integer z) = c :: cs ∧ (c = '-' ∨ c.isDigit) := by
  rw [write]
  split
  · exact ⟨_, _, rfl, Or.inl rfl⟩
  · cases shown : Nat.toDigits 10 z.natAbs with
    | nil => exact absurd shown Nat.toDigits_ne_nil
    | cons c cs =>
      have inside : c ∈ Nat.toDigits 10 z.natAbs := by simp [shown]
      exact ⟨c, cs, rfl, Or.inr (Nat.isDigit_of_mem_toDigits (by decide) (by decide) inside)⟩

end Number

namespace Text

/-- The codes of control characters have two hexadecimal digits. -/
theorem unit_control : ∀ n < 0x20, Hexadecimal.unit? '0' '0' (Hexadecimal.digit (n / 16))
    (Hexadecimal.digit (n % 16)) = some n ∧ ¬ isLowSurrogate n ∧ ¬ isHighSurrogate n := by decide

theorem read_escape (done : List Char) (c : Char) :
    read done (escape c ++ rest) = read (c :: done) rest := by
  unfold escape
  cases letter : escapeLetter c with
  | some l =>
    unfold escapeLetter at letter
    split at letter <;> cases letter <;> simp [read, unescape]
  | none =>
    by_cases control : c.toNat < 0x20
    · obtain ⟨unit, low, high⟩ := unit_control c.toNat control
      simp [if_pos control, read, unit, low, high, Char.ofNat_toNat]
    · have quote : c ≠ '"' := by
        rintro rfl
        cases letter
      have backslash : c ≠ '\\' := by
        rintro rfl
        cases letter
      rw [if_neg control, List.singleton_append, read, if_neg control]
      · exact quote
      all_goals intros; contradiction

theorem read_write (done cs rest : List Char) :
    read done (cs.flatMap escape ++ '"' :: rest) =
      .ok (String.ofList (done.reverse ++ cs), rest) := by
  induction cs generalizing done with
  | nil => simp [read]
  | cons c cs ih =>
    rw [List.flatMap_cons, List.append_assoc, read_escape, ih]
    simp

end Text

namespace Token

theorem start_number {c : Char} (first : c = '-' ∨ c.isDigit) (cs : List Char) :
    start c cs = ofScan false .number (Number.read (c :: cs)) := by
  have unmarked : mark c = none := by
    unfold mark
    split <;> first | rfl | exact absurd first (by decide)
  unfold start
  simp only [unmarked, first, if_true]
  repeat' rw [if_neg (by rintro rfl; exact absurd first (by decide))]

theorem solid_number {c : Char} (first : c = '-' ∨ c.isDigit) : isBlank c = false := by
  unfold isBlank
  simp only [Bool.or_eq_false_iff, beq_eq_false_iff_ne]
  refine ⟨⟨⟨?_, ?_⟩, ?_⟩, ?_⟩ <;> rintro rfl <;> exact absurd first (by decide)

end Token

end LinearCongruences.Json

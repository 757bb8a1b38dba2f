import Mathlib
import RadianceTransfer.Number.Count
import RadianceTransfer.Proofs.Text.Lines

/-!
# Texts of numbers

The texts of counts and of floating-point values are words: they are made of digits, a sign and a
point, or are one of the names of special values. A count is read back from its digits as long as
a word of 64 bits holds it.

## Main statements

* `readCount_digits`: a count is read back.
* `BinaryClass.isWord_render`: the text of a floating-point value is a word.
-/

namespace RadianceTransfer

open Text (IsWord isBlank)

theorem Text.isBlank_of_isDigit {c : Char} (h : c.isDigit = true) : isBlank c = false := by
  obtain ⟨hlow, hhigh⟩ := Char.isDigit_iff_toNat.1 h
  have hzero : '0'.toNat = 48 := rfl
  have hnine : '9'.toNat = 57 := rfl
  simp only [isBlank, blankRanges, List.any_cons, List.any_nil, Bool.or_eq_false_iff,
    Bool.and_eq_false_iff, decide_eq_false_iff_not, and_true]
  omega

theorem isDigit_of_char_isDigit {c : Char} (h : c.isDigit = true) : isDigit c = true := by
  rw [isDigit, Bool.and_eq_true, decide_eq_true_eq, decide_eq_true_eq]
  exact Char.isDigit_iff_toNat.1 h

/-! ### Counts -/

theorem isDigit_of_mem_toDigits {n : Nat} {c : Char} (h : c ∈ Nat.toDigits 10 n) :
    c.isDigit = true :=
  Nat.isDigit_of_mem_toDigits (by decide) (by decide) h

theorem Text.isWord_toDigits (n : Nat) : IsWord (Nat.toDigits 10 n) :=
  ⟨Nat.toDigits_ne_nil, fun _ hc => Text.isBlank_of_isDigit (isDigit_of_mem_toDigits hc)⟩

theorem le_ofDigitChars (cs : List Char) (m : Nat) : m ≤ Nat.ofDigitChars 10 cs m := by
  induction cs generalizing m with
  | nil => exact Nat.le_refl m
  | cons c cs ih =>
    rw [Nat.ofDigitChars_cons]
    exact Nat.le_trans (by omega) (ih _)

/-- The word holds every number on the way to the last one. -/
theorem readDigits_eq_ok {cs : List Char} (h : ∀ c ∈ cs, c.isDigit = true) {m : Nat}
    (hfits : FitsUnsigned 64 (Nat.ofDigitChars 10 cs m)) :
    readDigits m cs = .ok (Nat.ofDigitChars 10 cs m) := by
  induction cs generalizing m with
  | nil => rfl
  | cons c cs ih =>
    rw [Nat.ofDigitChars_cons] at hfits ⊢
    have hdigit : isDigit c = true := isDigit_of_char_isDigit (h c List.mem_cons_self)
    have hstep : FitsUnsigned 64 (10 * m + (c.toNat - '0'.toNat)) :=
      Nat.lt_of_le_of_lt (le_ofDigitChars cs _) hfits
    rw [readDigits, hdigit, Bool.not_true, if_neg Bool.false_ne_true]
    dsimp only
    rw [if_pos hstep]
    exact ih (fun d hd => h d (List.mem_cons_of_mem _ hd)) hfits

/-- A count is read back from its digits. -/
theorem readCount_digits {n : Nat} (h : FitsUnsigned 64 n) :
    readCount (String.ofList (Nat.toDigits 10 n)) = .ok n := by
  have hvalue : Nat.ofDigitChars 10 (Nat.toDigits 10 n) 0 = n :=
    Nat.ofDigitChars_toDigits (by decide) (by decide)
  have hread : readDigits 0 (Nat.toDigits 10 n) = .ok n := by
    rw [readDigits_eq_ok (fun c => isDigit_of_mem_toDigits) (by rwa [hvalue]), hvalue]
  have hfirst (c : Char) (hc : c.isDigit = false) (cs : List Char) :
      Nat.toDigits 10 n ≠ c :: cs := by
    intro heq
    have hmem : c ∈ Nat.toDigits 10 n := heq ▸ List.mem_cons_self
    exact Bool.false_ne_true (hc.symm.trans (isDigit_of_mem_toDigits hmem))
  rw [readCount, String.toList_ofList]
  split
  · rename_i heq
    exact absurd heq Nat.toDigits_ne_nil
  · rename_i heq
    exact absurd heq (hfirst '+' (by decide) [])
  · rename_i heq
    exact absurd heq (hfirst '-' (by decide) [])
  · rename_i cs _ heq
    exact absurd heq (hfirst '+' (by decide) cs)
  · exact hread

/-! ### Floating-point values -/

/-- The text of a decimal is made of digits and a point. -/
theorem Decimal.mem_layout {d : Decimal} {c : Char} (h : c ∈ d.layout.toList) :
    c.isDigit = true ∨ c = '.' := by
  have hdigit {k : Nat} (hc : c ∈ List.replicate k '0' ++ Nat.toDigits 10 d.digits) :
      c.isDigit = true := by
    rcases List.mem_append.1 hc with hzero | hc
    · rw [List.eq_of_mem_replicate hzero]
      rfl
    · exact isDigit_of_mem_toDigits hc
  rw [layout] at h
  dsimp only at h
  split at h
  · rw [String.toList_ofList, List.mem_append, or_comm, ← List.mem_append] at h
    exact .inl (hdigit h)
  · split at h
    · rw [String.toList_ofList] at h
      exact .inl (hdigit (List.mem_of_mem_take h))
    · rw [String.toList_ofList, List.mem_append, List.mem_cons] at h
      rcases h with h | rfl | h
      · exact .inl (hdigit (List.mem_of_mem_take h))
      · exact .inr rfl
      · have hdrop := (List.dropWhile_sublist _).mem (List.mem_reverse.1 h)
        exact .inl (hdigit (List.mem_of_mem_drop (List.mem_reverse.1 hdrop)))

theorem Decimal.layout_ne_nil (d : Decimal) : d.layout.toList ≠ [] := by
  rw [layout]
  dsimp only
  split
  · rw [String.toList_ofList]
    exact List.append_ne_nil_of_left_ne_nil Nat.toDigits_ne_nil _
  · -- The padding leaves a digit in front of the point.
    generalize hplaces : (-d.exponent).toNat = places
    generalize Nat.toDigits 10 d.digits = ds
    have hwhole : List.take ((List.replicate (places + 1 - ds.length) '0' ++ ds).length - places)
        (List.replicate (places + 1 - ds.length) '0' ++ ds) ≠ [] := by
      rw [← List.length_pos_iff, List.length_take, List.length_append, List.length_replicate]
      omega
    split
    · rwa [String.toList_ofList]
    · rw [String.toList_ofList]
      exact List.append_ne_nil_of_left_ne_nil hwhole _

theorem Decimal.isWord_layout (d : Decimal) : IsWord d.layout.toList := by
  refine ⟨d.layout_ne_nil, fun c hc => ?_⟩
  rcases Decimal.mem_layout hc with hdigit | rfl
  · exact Text.isBlank_of_isDigit hdigit
  · decide

/-- The text of a floating-point value is a word. -/
theorem BinaryClass.isWord_render (x : BinaryClass) : IsWord x.render.toList := by
  cases x with
  | nan => exact (by decide : IsWord ['N', 'a', 'N'])
  | infinite negative =>
    cases negative with
    | false => exact (by decide : IsWord ['i', 'n', 'f'])
    | true => exact (by decide : IsWord ['-', 'i', 'n', 'f'])
  | finite negative x =>
    have hzero : IsWord ['0'] := by decide
    have hminus : IsWord ['-'] := by decide
    have hdigits : IsWord (if x.m == 0 then "0" else x.shortest.layout).toList := by
      split
      · exact hzero
      · exact x.shortest.isWord_layout
    rw [render, String.toList_append]
    cases negative with
    | false => exact hdigits
    | true => exact hminus.append hdigits

end RadianceTransfer

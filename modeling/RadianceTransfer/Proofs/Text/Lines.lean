import Mathlib
import RadianceTransfer.Text.Blank

/-!
# Lines and words that were put together

A word is a text without white space that is not empty. Words with a single space between any two
make a line, and lines that each end in a line feed make a text. Such a text falls into the same
lines again, and each of them into the same words.

## Main statements

* `Text.words_joinWords`: the words of a line.
* `Text.lines_joinWords`: the lines of a text.
* `Text.trim_joinWords_ne_nil`: a line with a word is not blank.
-/

namespace RadianceTransfer.Text

/-- A text without white space that is not empty. -/
structure IsWord (w : List Char) : Prop where
  /-- The text is not empty. -/
  ne_nil : w ≠ []
  /-- The text has no white space. -/
  not_blank : ∀ c ∈ w, isBlank c = false

theorem isWord_iff {w : List Char} : IsWord w ↔ w ≠ [] ∧ w.all (fun c => !isBlank c) = true := by
  constructor
  · intro h
    exact ⟨h.ne_nil, by simpa using h.not_blank⟩
  · rintro ⟨hne, hall⟩
    exact ⟨hne, by simpa using hall⟩

instance (w : List Char) : Decidable (IsWord w) :=
  decidable_of_iff _ isWord_iff.symm

theorem IsWord.append {v w : List Char} (hv : IsWord v) (hw : IsWord w) : IsWord (v ++ w) := by
  refine ⟨List.append_ne_nil_of_left_ne_nil hv.ne_nil w, fun c hc => ?_⟩
  rcases List.mem_append.1 hc with hc | hc
  · exact hv.not_blank c hc
  · exact hw.not_blank c hc

/-- Words with a space between any two. -/
def joinWords (ws : List (List Char)) : List Char :=
  [' '].intercalate ws

theorem isBlank_of_isAsciiBlank {c : Char} (h : isAsciiBlank c = true) : isBlank c = true := by
  simp only [isAsciiBlank, Bool.or_eq_true, beq_iff_eq] at h
  rcases h with (((rfl | rfl) | rfl) | rfl) | rfl <;> decide

theorem IsWord.not_asciiBlank {w : List Char} (h : IsWord w) : ∀ c ∈ w, isAsciiBlank c = false := by
  intro c hc
  by_contra hblank
  rw [Bool.not_eq_false] at hblank
  exact Bool.false_ne_true ((h.not_blank c hc).symm.trans (isBlank_of_isAsciiBlank hblank))

/-! ### Splitting -/

theorem splitOn_eq_splitOnP {β : Type} (p : β → Bool) (xs : List β) :
    splitOn p xs = xs.splitOnP p := by
  induction xs with
  | nil => rw [List.splitOnP_nil]; rfl
  | cons x xs ih =>
    rw [splitOn, List.splitOnP_cons_eq_if_modifyHead, ih]
    split
    · rfl
    · cases h : xs.splitOnP p with
      | nil => exact absurd h (List.splitOnP_ne_nil p xs)
      | cons piece pieces => rfl

theorem splitOn_intercalate {β : Type} {p : β → Bool} {x : β} (hx : p x = true)
    {pieces : List (List β)} (hne : pieces ≠ []) (h : ∀ l ∈ pieces, ∀ y ∈ l, p y = false) :
    splitOn p ([x].intercalate pieces) = pieces := by
  rw [splitOn_eq_splitOnP]
  induction pieces with
  | nil => exact absurd rfl hne
  | cons l pieces ih =>
    have hl : ∀ y ∈ l, p y = false := h l List.mem_cons_self
    cases pieces with
    | nil => rw [List.intercalate_singleton, List.splitOnP_eq_singleton hl]
    | cons l' pieces =>
      rw [List.intercalate_cons_cons, List.append_assoc, List.singleton_append,
        List.splitOnP_append_cons_of_forall_mem hl x hx,
        ih (List.cons_ne_nil l' pieces) fun k hk => h k (List.mem_cons_of_mem _ hk)]

theorem splitOn_flatMap {β : Type} {p : β → Bool} {x : β} (hx : p x = true) {pieces : List (List β)}
    (h : ∀ l ∈ pieces, ∀ y ∈ l, p y = false) :
    splitOn p (pieces.flatMap (· ++ [x])) = pieces ++ [[]] := by
  rw [splitOn_eq_splitOnP]
  induction pieces with
  | nil => exact List.splitOnP_nil
  | cons l pieces ih =>
    rw [List.flatMap_cons, List.append_assoc, List.singleton_append,
      List.splitOnP_append_cons_of_forall_mem (h l List.mem_cons_self) x hx,
      ih fun k hk => h k (List.mem_cons_of_mem _ hk), List.cons_append]

/-! ### Words -/

/-- A line falls into the words that it was put together from. -/
theorem words_joinWords {ws : List (List Char)} (h : ∀ w ∈ ws, IsWord w) :
    words (joinWords ws) = ws := by
  cases ws with
  | nil => rfl
  | cons w ws =>
    have hsplit : splitOn isAsciiBlank (joinWords (w :: ws)) = w :: ws :=
      splitOn_intercalate rfl (List.cons_ne_nil w ws) fun l hl => (h l hl).not_asciiBlank
    rw [words, hsplit, List.filter_eq_self]
    intro l hl
    simpa using (h l hl).ne_nil

theorem mem_joinWords {ws : List (List Char)} {c : Char} (h : c ∈ joinWords ws) :
    c = ' ' ∨ ∃ w ∈ ws, c ∈ w := by
  induction ws with
  | nil => cases h
  | cons w ws ih =>
    cases ws with
    | nil => exact .inr ⟨w, List.mem_cons_self, by simpa [joinWords] using h⟩
    | cons w' ws =>
      rw [joinWords, List.intercalate_cons_cons, List.mem_append, List.mem_append,
        List.mem_singleton] at h
      rcases h with (h | h) | h
      · exact .inr ⟨w, List.mem_cons_self, h⟩
      · exact .inl h
      · rcases ih h with h | ⟨v, hv, hc⟩
        · exact .inl h
        · exact .inr ⟨v, List.mem_cons_of_mem _ hv, hc⟩

theorem mem_joinWords_of_mem {ws : List (List Char)} {w : List Char} (hw : w ∈ ws) {c : Char}
    (hc : c ∈ w) : c ∈ joinWords ws := by
  induction ws with
  | nil => cases hw
  | cons v ws ih =>
    cases ws with
    | nil =>
      rw [List.mem_singleton] at hw
      simpa [joinWords, hw] using hc
    | cons v' ws =>
      rw [joinWords, List.intercalate_cons_cons, List.mem_append, List.mem_append]
      rcases List.mem_cons.1 hw with rfl | hw
      · exact .inl (.inl hc)
      · exact .inr (ih hw)

theorem mem_joinWords_not_blank {ws : List (List Char)} (h : ∀ w ∈ ws, IsWord w) {c : Char}
    (hc : c ∈ joinWords ws) : c = ' ' ∨ isBlank c = false := by
  rcases mem_joinWords hc with hspace | ⟨w, hw, hcw⟩
  · exact .inl hspace
  · exact .inr ((h w hw).not_blank c hcw)

/-! ### Lines -/

theorem dropReturn_eq {l : List Char} (h : '\r' ∉ l) : dropReturn l = l := by
  refine if_neg fun hlast => h ?_
  rw [beq_iff_eq] at hlast
  exact List.mem_of_getLast? hlast

/-- A text falls into the lines that it was put together from, unless one of them has a line feed or
a carriage return in it. -/
theorem lines_flatMap {ls : List (List Char)} (hfeed : ∀ l ∈ ls, '\n' ∉ l)
    (hreturn : ∀ l ∈ ls, '\r' ∉ l) : lines (ls.flatMap (· ++ ['\n'])) = ls := by
  have hpieces : splitOn (· == '\n') (ls.flatMap (· ++ ['\n'])) = ls ++ [[]] := by
    refine splitOn_flatMap (by decide) fun l hl c hc => ?_
    rw [beq_eq_false_iff_ne]
    rintro rfl
    exact hfeed l hl hc
  have hkeep : ls.map dropReturn = ls :=
    List.map_congr_left (fun l hl => dropReturn_eq (hreturn l hl)) |>.trans (List.map_id ls)
  rw [lines, hpieces, List.dropLast_concat, List.getLast?_concat, hkeep]
  exact List.append_nil ls

/-- A text of lines that were put together from words falls into these lines. -/
theorem lines_joinWords {rows : List (List (List Char))} (h : ∀ ws ∈ rows, ∀ w ∈ ws, IsWord w) :
    lines (rows.flatMap fun ws => joinWords ws ++ ['\n']) = rows.map joinWords := by
  have hmem (c : Char) (hc : c ≠ ' ') (hblank : isBlank c = true) :
      ∀ l ∈ rows.map joinWords, c ∉ l := by
    intro l hl hcl
    obtain ⟨ws, hws, rfl⟩ := List.mem_map.1 hl
    rcases mem_joinWords_not_blank (h ws hws) hcl with hspace | hnot
    · exact hc hspace
    · exact Bool.false_ne_true (hnot.symm.trans hblank)
  rw [← List.flatMap_map joinWords (· ++ ['\n'])]
  exact lines_flatMap (hmem '\n' (by decide) (by decide)) (hmem '\r' (by decide) (by decide))

/-! ### White space at the ends -/

theorem trim_ne_nil {cs : List Char} {c : Char} (hc : c ∈ cs) (hblank : isBlank c = false) :
    trim cs ≠ [] := by
  intro h
  rw [trim, List.reverse_eq_nil_iff, List.dropWhile_eq_nil_iff] at h
  rw [← List.takeWhile_append_dropWhile (p := isBlank) (l := cs), List.mem_append] at hc
  rcases hc with hc | hc
  · exact Bool.false_ne_true (hblank.symm.trans (List.mem_takeWhile_imp hc))
  · exact Bool.false_ne_true (hblank.symm.trans (h c (List.mem_reverse.2 hc)))

theorem trim_joinWords_ne_nil {ws : List (List Char)} (hne : ws ≠ []) (h : ∀ w ∈ ws, IsWord w) :
    trim (joinWords ws) ≠ [] := by
  obtain ⟨w, hw⟩ := List.exists_mem_of_ne_nil ws hne
  obtain ⟨c, hc⟩ := List.exists_mem_of_ne_nil w (h w hw).ne_nil
  exact trim_ne_nil (mem_joinWords_of_mem hw hc) ((h w hw).not_blank c hc)

theorem trim_eq_self {cs : List Char} (h : ∀ c ∈ cs, isBlank c = false) : trim cs = cs := by
  have hdrop {l : List Char} (hl : ∀ c ∈ l, isBlank c = false) : l.dropWhile isBlank = l := by
    rw [List.dropWhile_eq_self_iff]
    intro hpos
    rw [hl _ (List.getElem_mem hpos)]
    exact Bool.false_ne_true
  rw [trim, hdrop h, hdrop fun c hc => h c (List.mem_reverse.1 hc), List.reverse_reverse]

end RadianceTransfer.Text

import Mathlib.Data.List.Induction
import Mathlib.Tactic.Common

/-!
# The first text in brackets

A scan that remembers what stands behind the last opening bracket and ends at the first closing bracket behind one.
`scan_eq_some_iff` says in the list itself what is found.
-/

namespace Brackets

variable {α : Type*} [DecidableEq α] (opening closing : α)

/-- The rest of the scan, with what has been read since the last opening bracket. -/
def scan : Option (List α) → List α → Option (List α)
  | _, [] => none
  | seen, x :: xs =>
    if x = opening then scan (some []) xs
    else
      match seen with
      | none => scan none xs
      | some text => if x = closing then some text else scan (some (text ++ [x])) xs

/-- What has been read since the last opening bracket. -/
def pending : Option (List α) → List α → Option (List α)
  | seen, [] => seen
  | seen, x :: xs => if x = opening then pending (some []) xs else pending (seen.map (· ++ [x])) xs

variable {opening closing} {seen : Option (List α)} {text xs : List α}

@[simp] theorem scan_nil : scan opening closing seen [] = none := rfl

@[simp] theorem scan_opening : scan opening closing seen (opening :: xs) = scan opening closing (some []) xs := by
  cases seen <;> rw [scan, if_pos rfl]

theorem scan_none_cons {x : α} (hx : x ≠ opening) :
    scan opening closing none (x :: xs) = scan opening closing none xs := by
  rw [scan, if_neg hx]

theorem scan_closing (hne : opening ≠ closing) : scan opening closing (some text) (closing :: xs) = some text := by
  rw [scan, if_neg (Ne.symm hne)]
  exact if_pos rfl

theorem scan_some_cons {x : α} (hx : x ≠ opening) (hx' : x ≠ closing) :
    scan opening closing (some text) (x :: xs) = scan opening closing (some (text ++ [x])) xs := by
  rw [scan, if_neg hx]
  exact if_neg hx'

/-- The scan goes on where it has found nothing. -/
theorem scan_append (hne : opening ≠ closing) (seen : Option (List α)) (xs ys : List α) :
    scan opening closing seen (xs ++ ys) =
      (scan opening closing seen xs).or (scan opening closing (pending opening seen xs) ys) := by
  induction xs generalizing seen with
  | nil => rfl
  | cons x xs ih =>
    rw [List.cons_append, pending]
    by_cases hx : x = opening
    · subst hx
      rw [if_pos rfl, scan_opening, scan_opening, ih]
    · rw [if_neg hx]
      cases seen with
      | none => rw [scan_none_cons hx, scan_none_cons hx, ih, Option.map_none]
      | some text =>
        by_cases hx' : x = closing
        · rw [hx', scan_closing hne, scan_closing hne, Option.some_or]
        · rw [scan_some_cons hx hx', scan_some_cons hx hx', ih, Option.map_some]

theorem scan_of_not_mem (hclosing : closing ∉ xs) : scan opening closing seen xs = none := by
  fun_induction scan opening closing seen xs <;> simp_all

theorem scan_none_of_not_mem (hopening : opening ∉ xs) : scan opening closing none xs = none := by
  induction xs with
  | nil => rfl
  | cons x xs ih =>
    rw [List.mem_cons, not_or] at hopening
    rw [scan_none_cons (Ne.symm hopening.1), ih hopening.2]

theorem pending_none_of_not_mem (hopening : opening ∉ xs) : pending opening none xs = none := by
  induction xs with
  | nil => rfl
  | cons x xs ih =>
    rw [List.mem_cons, not_or] at hopening
    rw [pending, if_neg (Ne.symm hopening.1), Option.map_none, ih hopening.2]

/-- The text up to the closing bracket. -/
theorem scan_text (hne : opening ≠ closing) (hopening : opening ∉ xs) (hclosing : closing ∉ xs) (ys : List α) :
    scan opening closing (some text) (xs ++ closing :: ys) = some (text ++ xs) := by
  induction xs generalizing text with
  | nil => rw [List.nil_append, scan_closing hne, List.append_nil]
  | cons x xs ih =>
    rw [List.mem_cons, not_or] at hopening hclosing
    rw [List.cons_append, scan_some_cons (Ne.symm hopening.1) (Ne.symm hclosing.1), ih hopening.2 hclosing.2,
      List.append_assoc, List.singleton_append]

/-- Inside brackets the scan ends at some closing bracket if there is one. -/
theorem scan_some_eq_none_iff (hne : opening ≠ closing) :
    scan opening closing (some text) xs = none ↔ closing ∉ xs := by
  induction xs generalizing text with
  | nil => simp
  | cons x xs ih =>
    rw [List.mem_cons, not_or]
    by_cases hx : x = opening
    · subst hx
      rw [scan_opening, ih, and_iff_right (Ne.symm hne)]
    · by_cases hx' : x = closing
      · simp [hx', scan_closing hne]
      · rw [scan_some_cons hx hx', ih, and_iff_right (Ne.symm hx')]

/-! ### What is found -/

omit [DecidableEq α] in
variable (opening closing) in
/-- An opening bracket is followed by a closing one. -/
def Closes (xs : List α) : Prop := ∃ before text after, xs = before ++ opening :: (text ++ closing :: after)

variable (opening closing) in
/-- The text is in the first pair of brackets that is closed. -/
def Encloses (xs text : List α) : Prop :=
  ∃ before after, xs = before ++ opening :: (text ++ closing :: after) ∧ opening ∉ text ∧ closing ∉ text ∧
    ¬ Closes opening closing before

omit [DecidableEq α] in
theorem closes_cons_iff {x : α} :
    Closes opening closing (x :: xs) ↔ (x = opening ∧ closing ∈ xs) ∨ Closes opening closing xs := by
  constructor
  · rintro ⟨before, text, after, h⟩
    rcases List.cons_eq_append_iff.1 h with ⟨-, h⟩ | ⟨before, -, h⟩
    · obtain ⟨hx, hxs⟩ := List.cons.inj h
      exact .inl ⟨hx.symm, hxs ▸ by simp⟩
    · exact .inr ⟨before, text, after, h⟩
  · rintro (⟨rfl, hmem⟩ | ⟨before, text, after, rfl⟩)
    · obtain ⟨text, after, rfl⟩ := List.append_of_mem hmem
      exact ⟨[], text, after, rfl⟩
    · exact ⟨x :: before, text, after, rfl⟩

omit [DecidableEq α] in
theorem mem_of_closes (h : Closes opening closing xs) : closing ∈ xs := by
  obtain ⟨before, text, after, rfl⟩ := h
  simp

theorem scan_eq_none_iff (hne : opening ≠ closing) :
    scan opening closing none xs = none ↔ ¬ Closes opening closing xs := by
  induction xs with
  | nil => simp [Closes]
  | cons x xs ih =>
    rw [closes_cons_iff, not_or]
    by_cases hx : x = opening
    · subst hx
      rw [scan_opening, scan_some_eq_none_iff hne]
      exact ⟨fun h => ⟨fun h' => h h'.2, fun h' => h (mem_of_closes h')⟩, fun h h' => h.1 ⟨rfl, h'⟩⟩
    · rw [scan_none_cons hx, ih, and_iff_right fun h => hx h.1]

theorem scan_of_encloses (hne : opening ≠ closing) (h : Encloses opening closing xs text) :
    scan opening closing none xs = some text := by
  obtain ⟨before, after, rfl, hopening, hclosing, hbefore⟩ := h
  rw [scan_append hne, (scan_eq_none_iff hne).2 hbefore, Option.none_or, scan_opening,
    scan_text hne hopening hclosing, List.nil_append]

omit [DecidableEq α] in
/-- The element that closes the first pair. -/
private theorem closes_concat {x : α} (h : Closes opening closing (xs ++ [x])) (hxs : ¬ Closes opening closing xs) :
    x = closing ∧ opening ∈ xs := by
  obtain ⟨before, text, after, heq⟩ := h
  obtain rfl | ⟨after, y, rfl⟩ := List.eq_nil_or_concat after
  · have hsplit : xs ++ [x] = (before ++ opening :: text) ++ [closing] := by simpa using heq
    obtain ⟨rfl, hx⟩ := List.append_inj' hsplit rfl
    exact ⟨(List.cons.inj hx).1, by simp⟩
  · have hsplit : xs ++ [x] = (before ++ opening :: (text ++ closing :: after)) ++ [y] := by simpa using heq
    exact absurd ⟨before, text, after, (List.append_inj' hsplit rfl).1⟩ hxs

omit [DecidableEq α] in
/-- Where something is closed, there is a first pair. -/
theorem exists_encloses (h : Closes opening closing xs) : ∃ text, Encloses opening closing xs text := by
  induction xs using List.reverseRecOn with
  | nil => simp [Closes] at h
  | append_singleton xs x ih =>
    by_cases hxs : Closes opening closing xs
    · obtain ⟨text, before, after, rfl, hrest⟩ := ih hxs
      exact ⟨text, before, after ++ [x], by simp, hrest⟩
    · obtain ⟨rfl, hmem⟩ := closes_concat h hxs
      -- the text behind the last opening bracket
      obtain ⟨text, before, hrev, htext⟩ := List.eq_append_cons_of_mem (List.mem_reverse.2 hmem)
      have hsplit : xs = before.reverse ++ opening :: text.reverse := by
        rw [← List.reverse_reverse xs, hrev]
        simp
      refine ⟨text.reverse, before.reverse, [], by simp [hsplit], by simpa using htext, fun hclosing => ?_, ?_⟩
      · obtain ⟨s, t, hst⟩ := List.append_of_mem hclosing
        exact hxs ⟨before.reverse, s, t, by rw [hsplit, hst]⟩
      · rintro ⟨a, b, d, hbefore⟩
        exact hxs ⟨a, b, d ++ opening :: text.reverse, by rw [hsplit, hbefore]; simp⟩

theorem scan_eq_some_iff (hne : opening ≠ closing) :
    scan opening closing none xs = some text ↔ Encloses opening closing xs text := by
  refine ⟨fun h => ?_, scan_of_encloses hne⟩
  have hcloses : Closes opening closing xs := by
    by_contra hnot
    rw [(scan_eq_none_iff hne).2 hnot] at h
    cases h
  obtain ⟨text', henc⟩ := exists_encloses hcloses
  have heq := (scan_of_encloses hne henc).symm.trans h
  exact Option.some.inj heq ▸ henc

/-- What stands around a text and has no brackets does not count. -/
theorem scan_around {pre post : List α} (hne : opening ≠ closing) (hpre : opening ∉ pre) (hpost : closing ∉ post) :
    scan opening closing none (pre ++ xs ++ post) = scan opening closing none xs := by
  rw [scan_append hne, scan_append hne, scan_none_of_not_mem hpre, pending_none_of_not_mem hpre,
    scan_of_not_mem hpost, Option.none_or, Option.or_none]

/-- A text in brackets behind another one is found if and only if nothing is closed in that, or the same text is in
brackets there. -/
theorem scan_behind_iff {pre post : List α} (hne : opening ≠ closing) (hpre : opening ∉ pre) (hpost : closing ∉ post)
    (hopening : opening ∉ text) (hclosing : closing ∉ text) (after : List α) :
    scan opening closing none (pre ++ xs ++ post ++ opening :: (text ++ closing :: after)) = some text ↔
      ¬ Closes opening closing xs ∨ Encloses opening closing xs text := by
  rw [scan_append hne, scan_opening, scan_text hne hopening hclosing, List.nil_append, scan_around hne hpre hpost,
    ← scan_eq_none_iff hne, ← scan_eq_some_iff hne]
  cases scan opening closing none xs <;> simp

end Brackets

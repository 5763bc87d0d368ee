import Mathlib.Data.List.Basic

/-!
Codes whose words can be told apart from the start of a stream, and the ways to
build them: words ended by a mark, words of a known length, lists of words
closed by an end mark.
-/

namespace Library

variable {α β : Type}

def PrefixCode (legal : α → Prop) (encode : α → List β) : Prop :=
  ∀ {first second : α}, legal first → legal second → ∀ {rest other : List β},
    encode first ++ rest = encode second ++ other → first = second ∧ rest = other

theorem cut_at_mark (mark : β → Prop) {first second : List β} {left right : β}
    {rest other : List β} (firstClean : ∀ entry ∈ first, ¬mark entry)
    (secondClean : ∀ entry ∈ second, ¬mark entry) (leftMark : mark left) (rightMark : mark right)
    (same : first ++ left :: rest = second ++ right :: other) :
    first = second ∧ left = right ∧ rest = other := by
  induction first generalizing second with
  | nil =>
      cases second with
      | nil => exact ⟨rfl, List.cons.inj same⟩
      | cons entry more =>
          rw [List.nil_append, List.cons_append, List.cons.injEq] at same
          exact absurd (same.1 ▸ leftMark) (secondClean entry (by simp))
  | cons entry more ih =>
      cases second with
      | nil =>
          rw [List.nil_append, List.cons_append, List.cons.injEq] at same
          exact absurd (same.1 ▸ rightMark) (firstClean entry (by simp))
      | cons head tail =>
          rw [List.cons_append, List.cons_append, List.cons.injEq] at same
          obtain ⟨words, marks, rests⟩ := ih (fun inner member => firstClean inner (by simp [member]))
            (fun inner member => secondClean inner (by simp [member])) same.2
          exact ⟨by rw [same.1, words], marks, rests⟩

namespace PrefixCode

variable {legal : α → Prop} {encode : α → List β}

/-- A list of words, none of which starts like the end mark, is known once the mark closes it. -/
theorem closed (code : PrefixCode legal encode) {mark : List β}
    (apart : ∀ {word : α}, legal word → ∀ {rest other : List β},
      encode word ++ rest ≠ mark ++ other) :
    PrefixCode (fun words : List α => ∀ word ∈ words, legal word)
      (fun words => words.flatMap encode ++ mark) := by
  intro first second firstLegal secondLegal rest other same
  induction first generalizing second with
  | nil =>
      cases second with
      | nil => exact ⟨rfl, List.append_cancel_left same⟩
      | cons word more =>
          simp only [List.flatMap_nil, List.nil_append, List.flatMap_cons, List.append_assoc] at same
          exact absurd same.symm (apart (secondLegal word (by simp)))
  | cons word more ih =>
      cases second with
      | nil =>
          simp only [List.flatMap_nil, List.nil_append, List.flatMap_cons, List.append_assoc] at same
          exact absurd same (apart (firstLegal word (by simp)))
      | cons head tail =>
          simp only [List.flatMap_cons, List.append_assoc] at same
          obtain ⟨heads, tails⟩ := code (firstLegal word (by simp)) (secondLegal head (by simp)) same
          have remaining : (more.flatMap encode ++ mark) ++ rest =
              (tail.flatMap encode ++ mark) ++ other := by
            simpa only [List.append_assoc] using tails
          obtain ⟨words, rests⟩ := ih (fun inner member => firstLegal inner (by simp [member]))
            (fun inner member => secondLegal inner (by simp [member])) remaining
          exact ⟨by rw [heads, words], rests⟩

theorem flatMap_injective (code : PrefixCode legal encode)
    (nonempty : ∀ {word : α}, legal word → encode word ≠ []) {first second : List α}
    (firstLegal : ∀ word ∈ first, legal word) (secondLegal : ∀ word ∈ second, legal word)
    (same : first.flatMap encode = second.flatMap encode) : first = second := by
  induction first generalizing second with
  | nil =>
      cases second with
      | nil => rfl
      | cons word more =>
          have empty := List.append_eq_nil_iff.mp (List.flatMap_cons ▸ same.symm)
          exact absurd empty.1 (nonempty (secondLegal word (by simp)))
  | cons word more ih =>
      cases second with
      | nil =>
          have empty := List.append_eq_nil_iff.mp (List.flatMap_cons ▸ same)
          exact absurd empty.1 (nonempty (firstLegal word (by simp)))
      | cons head tail =>
          rw [List.flatMap_cons, List.flatMap_cons] at same
          obtain ⟨heads, tails⟩ := code (firstLegal word (by simp)) (secondLegal head (by simp)) same
          rw [heads, ih (fun inner member => firstLegal inner (by simp [member]))
            (fun inner member => secondLegal inner (by simp [member])) tails]

end PrefixCode

end Library

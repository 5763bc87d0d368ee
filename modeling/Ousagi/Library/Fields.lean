import Mathlib.Data.List.TakeWhile

/-!
Fields of a list: the maximal runs of entries that differ from a separator,
with the empty runs left out.
-/

namespace Library

variable {α : Type} [DecidableEq α]

def fields (separator : α) (entries : List α) : List (List α) :=
  (entries.splitOn separator).filter (· ≠ [])

@[simp] theorem fields_nil (separator : α) : fields separator [] = [] := by
  simp [fields, List.splitOn_eq_splitOnP]

@[simp] theorem fields_cons_separator (separator : α) (entries : List α) :
    fields separator (separator :: entries) = fields separator entries := by
  simp [fields, List.splitOn_cons_eq_if_modifyHead]

theorem fields_single {separator : α} {field : List α} (nonempty : field ≠ [])
    (clean : separator ∉ field) : fields separator field = [field] := by
  simp [fields, List.splitOn_eq_singleton clean, nonempty]

theorem fields_append_cons {separator : α} {field : List α} (nonempty : field ≠ [])
    (clean : separator ∉ field) (rest : List α) :
    fields separator (field ++ separator :: rest) = field :: fields separator rest := by
  simp [fields, List.splitOn_append_cons_self_of_not_mem clean, nonempty]

theorem fields_dropWhile (separator : α) (entries : List α) :
    fields separator (entries.dropWhile (· = separator)) = fields separator entries := by
  induction entries with
  | nil => rfl
  | cons first rest ih =>
      by_cases same : first = separator
      · simp [same, ih]
      · simp [same]

theorem fields_takeWhile {separator first : α} (different : first ≠ separator) (rest : List α) :
    fields separator (first :: rest) =
      (first :: rest).takeWhile (· ≠ separator) ::
        fields separator ((first :: rest).dropWhile (· ≠ separator)) := by
  have clean : separator ∉ (first :: rest).takeWhile (· ≠ separator) := by
    intro member
    simpa using List.mem_takeWhile_imp member
  have nonempty : (first :: rest).takeWhile (· ≠ separator) ≠ [] := by simp [different]
  have whole := List.takeWhile_append_dropWhile (p := (· ≠ separator)) (l := first :: rest)
  cases after : (first :: rest).dropWhile (· ≠ separator) with
  | nil =>
      rw [after, List.append_nil] at whole
      rw [whole] at clean ⊢
      rw [fields_single (List.cons_ne_nil first rest) clean, fields_nil]
  | cons boundary tail =>
      have stops := List.head?_dropWhile_not (· ≠ separator) (first :: rest)
      rw [after] at stops
      have same : boundary = separator := by simpa using stops
      rw [after, same] at whole
      rw [same, fields_cons_separator, ← fields_append_cons nonempty clean tail, whole]

theorem fields_intercalate {separator : α} {words : List (List α)}
    (nonempty : ∀ word ∈ words, word ≠ []) (clean : ∀ word ∈ words, separator ∉ word) :
    fields separator ([separator].intercalate words) = words := by
  by_cases empty : words = []
  · simp [empty]
  · rw [fields, List.splitOn_intercalate separator clean empty, List.filter_eq_self]
    intro word member
    simpa using nonempty word member

theorem fields_length_le (separator : α) (entries : List α) :
    (fields separator entries).length ≤ entries.length := by
  induction size : entries.length using Nat.strongRecOn generalizing entries with
  | ind length ih =>
      cases entries with
      | nil => simp
      | cons first rest =>
          rw [List.length_cons] at size
          by_cases same : first = separator
          · have fewer := ih rest.length (by omega) rest rfl
            rw [same, fields_cons_separator]
            omega
          · have shorter := (List.dropWhile_sublist (· ≠ separator) (l := rest)).length_le
            have fewer := ih _ (by omega) (rest.dropWhile (· ≠ separator)) rfl
            rw [fields_takeWhile same, List.dropWhile_cons, if_pos (by simpa using same),
              List.length_cons]
            omega

theorem mem_fields {separator : α} {entries field : List α}
    (member : field ∈ fields separator entries) : field <:+: entries := by
  induction size : entries.length using Nat.strongRecOn generalizing entries with
  | ind length ih =>
      cases entries with
      | nil => simp at member
      | cons first rest =>
          rw [List.length_cons] at size
          by_cases same : first = separator
          · rw [same, fields_cons_separator] at member
            have inside := ih rest.length (by omega) member rfl
            exact inside.trans (List.suffix_cons first rest).isInfix
          · rw [fields_takeWhile same] at member
            rcases List.mem_cons.mp member with here | later
            · rw [here]
              exact (List.takeWhile_prefix _).isInfix
            · have shorter := (List.dropWhile_sublist (· ≠ separator) (l := rest)).length_le
              rw [List.dropWhile_cons, if_pos (by simpa using same)] at later
              have inside := ih _ (by omega) later rfl
              exact inside.trans
                ((List.dropWhile_suffix _).trans (List.suffix_cons first rest)).isInfix

end Library

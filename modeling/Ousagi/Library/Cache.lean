import Mathlib.Data.List.AList

/-!
A map with an atomic entry operation: a closure looks at the value of one key
and retains it, changed or not, or removes it.
-/

namespace Library

abbrev Cache (κ ν : Type) := AList fun _ : κ => ν

inductive EntryAction (α : Type)
  | retain (result : α)
  | remove
  deriving DecidableEq, Repr

inductive EntryResult (α : Type)
  | retained (result : α)
  | removed
  | vacant
  deriving DecidableEq, Repr

def EntryResult.isRemoved {α : Type} : EntryResult α → Bool
  | .removed => true
  | _ => false

namespace Cache

variable {κ ν α : Type} [DecidableEq κ]

def entry (cache : Cache κ ν) (key : κ) (closure : ν → ν × EntryAction α) :
    EntryResult α × Cache κ ν :=
  match cache.lookup key with
  | none => (.vacant, cache)
  | some value =>
      match closure value with
      | (value, .retain result) => (.retained result, cache.insert key value)
      | (_, .remove) => (.removed, cache.erase key)

def entryValue (closure : ν → ν × EntryAction α) (found : Option ν) : Option ν :=
  found.bind fun value =>
    match closure value with
    | (value, .retain _) => some value
    | (_, .remove) => none

def entryResult (closure : ν → ν × EntryAction α) : Option ν → EntryResult α
  | none => .vacant
  | some value =>
      match closure value with
      | (_, .retain result) => .retained result
      | (_, .remove) => .removed

theorem entry_result (cache : Cache κ ν) (key : κ) (closure : ν → ν × EntryAction α) :
    (cache.entry key closure).1 = entryResult closure (cache.lookup key) := by
  rw [entry]
  cases cache.lookup key with
  | none => rfl
  | some value =>
      simp only [entryResult]
      rcases closure value with ⟨changed, result | _⟩ <;> rfl

theorem entry_lookup (cache : Cache κ ν) (key other : κ) (closure : ν → ν × EntryAction α) :
    (cache.entry key closure).2.lookup other =
      if other = key then entryValue closure (cache.lookup key) else cache.lookup other := by
  rw [entry]
  by_cases same : other = key
  · subst same
    rw [if_pos rfl]
    cases found : cache.lookup other with
    | none => simpa [entryValue] using found
    | some value =>
        simp only [entryValue, Option.bind_some]
        rcases closure value with ⟨changed, result | _⟩
        · simp
        · simp
  · rw [if_neg same]
    cases cache.lookup key with
    | none => rfl
    | some value =>
        simp only
        rcases closure value with ⟨changed, result | _⟩
        · simp [AList.lookup_insert_ne same]
        · simp [AList.lookup_erase_ne same]

theorem insert_lookup (cache : Cache κ ν) (key other : κ) (value : ν) :
    AList.lookup other (AList.insert key value cache) =
      if other = key then some value else cache.lookup other := by
  by_cases same : other = key
  · subst same
    simp
  · rw [if_neg same, AList.lookup_insert_ne same]

theorem erase_lookup (cache : Cache κ ν) (key other : κ) :
    AList.lookup other (AList.erase key cache) =
      if other = key then none else cache.lookup other := by
  by_cases same : other = key
  · subst same
    simp
  · rw [if_neg same, AList.lookup_erase_ne same]

theorem erase_keys (cache : Cache κ ν) :
    cache.keys.foldl (fun cache key => AList.erase key cache) cache = ∅ := by
  induction size : cache.keys generalizing cache with
  | nil => exact AList.ext (List.map_eq_nil_iff.mp size)
  | cons key rest ih =>
      have left : (AList.erase key cache).keys = rest := by
        rw [AList.keys_erase, size]
        simp
      rw [List.foldl_cons, ih _ left]

section Size

def size (cache : Cache κ ν) : Nat := cache.entries.length

omit [DecidableEq κ] in
theorem keys_size (cache : Cache κ ν) : cache.keys.length = cache.size := List.length_map _

theorem erase_size (cache : Cache κ ν) (key : κ) :
    size (AList.erase key cache) + (cache.lookup key).isSome.toNat = cache.size := by
  rw [← keys_size, ← keys_size, AList.keys_erase, List.length_erase]
  cases found : cache.lookup key with
  | none =>
      have absent : key ∉ cache.keys := AList.lookup_eq_none.mp found
      rw [if_neg absent]
      rfl
  | some value =>
      have among : key ∈ cache.keys := AList.lookup_isSome.mp (by simp [found])
      have positive := List.length_pos_of_mem among
      rw [if_pos among, Option.isSome_some, Bool.toNat_true]
      omega

theorem insert_size (cache : Cache κ ν) (key : κ) (value : ν) :
    size (AList.insert key value cache) + (cache.lookup key).isSome.toNat = cache.size + 1 := by
  have erased := erase_size cache key
  have inserted : size (AList.insert key value cache) = size (AList.erase key cache) + 1 := rfl
  omega

theorem entry_size (cache : Cache κ ν) (key : κ) (closure : ν → ν × EntryAction α) :
    (cache.entry key closure).2.size + (cache.entry key closure).1.isRemoved.toNat =
      cache.size := by
  rw [entry]
  cases found : cache.lookup key with
  | none => rfl
  | some value =>
      have inserted := insert_size cache key
      have erased := erase_size cache key
      simp only [found, Option.isSome_some, Bool.toNat_true] at inserted erased
      simp only
      rcases closure value with ⟨changed, result | _⟩
      · exact Nat.succ.inj (inserted changed)
      · exact erased

end Size

end Cache

end Library

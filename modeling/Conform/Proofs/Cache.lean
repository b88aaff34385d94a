import Conform.Cache

/-! # The cache — where its entries come from

    A lookup makes no entry, and an insertion makes one.  So a property of every
    entry survives lookups, survives clearing, and survives the insertion of
    entries that have it. -/

namespace Conform.Cache

universe u

variable {α : Type u}

/-- What a lookup finds is the value of an entry under the key. -/
theorem mem_of_lookup_eq_some {cache : Cache α} {now : Nat} {key : String} {value : α}
    (h : (cache.lookup now key).1 = some value) :
    ∃ entry ∈ cache.entries, entry.key = key ∧ entry.value = value := by
  unfold lookup at h
  cases he : cache.entry? key with
  | none =>
      rw [he] at h
      exact nomatch h
  | some entry =>
      have hmem : entry ∈ cache.entries := List.mem_of_find?_eq_some he
      have hkey : entry.key = key := by simpa using List.find?_some he
      rw [he] at h
      by_cases hx : cache.isExpired now entry = true
      · simp only [if_pos hx] at h
        exact nomatch h
      · simp only [if_neg hx, Option.some.injEq] at h
        exact ⟨entry, hmem, hkey, h⟩

/-- An entry that is left after a lookup was there before. -/
theorem mem_of_mem_lookup {cache : Cache α} {now : Nat} {key : String} {entry : Entry α}
    (h : entry ∈ (cache.lookup now key).2.entries) : entry ∈ cache.entries := by
  unfold lookup at h
  cases he : cache.entry? key with
  | none =>
      rw [he] at h
      exact h
  | some found =>
      rw [he] at h
      by_cases hx : cache.isExpired now found = true
      · simp only [if_pos hx] at h
        exact (List.mem_filter.1 h).1
      · simp only [if_neg hx] at h
        rcases List.mem_cons.1 h with heq | hmem
        · rw [heq]
          exact List.mem_of_find?_eq_some he
        · exact (List.mem_filter.1 hmem).1

/-- Where a lookup finds nothing, it leaves no entry under the key. -/
theorem key_ne_of_mem_lookup {cache : Cache α} {now : Nat} {key : String} {entry : Entry α}
    (h : (cache.lookup now key).1 = none) (hmem : entry ∈ (cache.lookup now key).2.entries) :
    entry.key ≠ key := by
  unfold lookup at h hmem
  cases he : cache.entry? key with
  | none =>
      rw [he] at hmem
      simpa using List.find?_eq_none.1 he entry hmem
  | some found =>
      rw [he] at h hmem
      by_cases hx : cache.isExpired now found = true
      · simp only [if_pos hx] at hmem
        simpa using (List.mem_filter.1 hmem).2
      · simp only [if_neg hx] at h
        cases h

/-- An entry after an insertion is the one inserted, or was there before. -/
theorem mem_of_mem_insert {cache : Cache α} {now : Nat} {key : String} {value : α}
    {entry : Entry α} (h : entry ∈ (cache.insert now key value).entries) :
    entry = ⟨key, value, now⟩ ∨ entry ∈ cache.entries := by
  rcases List.mem_cons.1 (List.mem_of_mem_take h) with heq | hmem
  · exact Or.inl heq
  · exact Or.inr ((List.mem_filter.1 hmem).1)

end Conform.Cache

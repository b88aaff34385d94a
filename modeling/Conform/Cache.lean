/-! # The cache — a bounded map that forgets

    Entries stand in the order of their last use, the latest first.  A use is
    an insertion or a lookup that finds its key.  An insertion beyond the
    capacity drops the entry at the back.  An entry older than the age limit
    counts until it is looked up; the lookup then removes it.

    Main fact: the capacity is never exceeded (`length_insert_le`). -/

namespace Conform

universe u

namespace Cache

/-- A value under its key, with the time of its insertion. -/
structure Entry (α : Type u) where
  key : String
  value : α
  born : Nat

end Cache

/-- A bounded map with an age limit in milliseconds, if it has one. -/
structure Cache (α : Type u) where
  capacity : Nat
  maxAge : Option Nat
  entries : List (Cache.Entry α)

namespace Cache

variable {α : Type u}

/-- An empty cache; there is room for one entry at least. -/
def empty (capacity : Nat) (maxAge : Option Nat) : Cache α := ⟨max 1 capacity, maxAge, []⟩

/-- The capacity of a cache for which none is asked. -/
def defaultCapacity : Nat := 512

/-- How many entries there are. -/
def size (cache : Cache α) : Nat := cache.entries.length

/-- The entry under a key. -/
def entry? (cache : Cache α) (key : String) : Option (Entry α) :=
  cache.entries.find? fun entry => entry.key == key

/-- The entries under other keys, in their order. -/
def others (cache : Cache α) (key : String) : List (Entry α) :=
  cache.entries.filter fun entry => entry.key != key

/-- Whether an entry is too old at a time. -/
def isExpired (cache : Cache α) (now : Nat) (entry : Entry α) : Bool :=
  match cache.maxAge with
  | none => false
  | some limit => decide (limit < now - entry.born)

/-- Looks a key up.  What is found moves to the front, or is removed if it is
    too old. -/
def lookup (cache : Cache α) (now : Nat) (key : String) : Option α × Cache α :=
  match cache.entry? key with
  | none => (none, cache)
  | some entry =>
      if cache.isExpired now entry then (none, { cache with entries := cache.others key })
      else (some entry.value, { cache with entries := entry :: cache.others key })

/-- Inserts a value at the front, in place of an earlier one under its key. -/
def insert (cache : Cache α) (now : Nat) (key : String) (value : α) : Cache α :=
  { cache with entries := (⟨key, value, now⟩ :: cache.others key).take cache.capacity }

/-- Forgets every entry. -/
def clear (cache : Cache α) : Cache α := { cache with entries := [] }

theorem length_others_le (cache : Cache α) (key : String) :
    (cache.others key).length ≤ cache.entries.length :=
  List.length_filter_le _ _

/-- An insertion never exceeds the capacity. -/
theorem length_insert_le (cache : Cache α) (now : Nat) (key : String) (value : α) :
    (cache.insert now key value).size ≤ cache.capacity :=
  List.length_take_le _ _

end Cache

end Conform

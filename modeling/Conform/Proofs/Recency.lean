import Mathlib.Data.Finset.Card
import Mathlib.Data.List.Basic
import Conform.Proofs.Cache

/-! # Recency — what a history says about a cache

    A cache goes through lookups, insertions, clearing and time.  Its HISTORY lists what
    happened, the latest first: what was inserted and when, and which lookups found
    something.  A key is used when it is inserted or found, and the keys that a cache holds
    stand in the order of their last use (`Tracks.order`).

    A key is held as long as fewer others than there is room for have been used since it
    was, unless it was looked up too late (`Tracks.held`).  So what a lookup finds, and when
    it finds nothing, can be read off the history (`lookups_answer_history`). -/

namespace Conform

universe u

/-! ## Keys in the order of their last use -/

/-- The keys with this one in front, and nowhere else. -/
def toFront (key : String) (keys : List String) : List String := key :: keys.filter (· != key)

/-- Each of the keys once, in the order of their last use; `uses` has the latest first. -/
def recent : List String → List String
  | [] => []
  | key :: earlier => toFront key (recent earlier)

/-- What stands ahead of the key. -/
def ahead (key : String) (keys : List String) : List String := keys.takeWhile (· != key)

theorem ahead_cons_self (key : String) (rest : List String) : ahead key (key :: rest) = [] :=
  List.takeWhile_cons_of_neg (by rw [bne_self_eq_false]; exact Bool.false_ne_true)

theorem ahead_cons_of_ne {key first : String} (h : first ≠ key) (rest : List String) :
    ahead key (first :: rest) = first :: ahead key rest :=
  List.takeWhile_cons_of_pos (bne_iff_ne.2 h)

theorem mem_toFront_iff {key other : String} {keys : List String} :
    other ∈ toFront key keys ↔ other = key ∨ other ∈ keys := by
  rw [toFront, List.mem_cons, List.mem_filter, bne_iff_ne]
  tauto

/-- What was used recently was used. -/
theorem mem_recent_iff {uses : List String} {key : String} : key ∈ recent uses ↔ key ∈ uses := by
  induction uses with
  | nil => exact Iff.rfl
  | cons first earlier ih =>
      rw [recent, mem_toFront_iff, ih, List.mem_cons]

/-- Of several uses of a key the latest one counts. -/
theorem nodup_recent (uses : List String) : (recent uses).Nodup := by
  induction uses with
  | nil => exact List.nodup_nil
  | cons key earlier ih =>
      refine List.nodup_cons.2 ⟨fun hmem => ?_, ih.filter _⟩
      exact bne_iff_ne.1 (List.mem_filter.1 hmem).2 rfl

/-- There are as many recent keys as different keys were used. -/
theorem length_recent (uses : List String) : (recent uses).length = uses.toFinset.card := by
  rw [← List.toFinset_card_of_nodup (nodup_recent uses)]
  congr 1
  ext key
  rw [List.mem_toFinset, List.mem_toFinset, mem_recent_iff]

/-- Taking another key out does so ahead of the key. -/
theorem ahead_filter {key other : String} (h : other ≠ key) (keys : List String) :
    ahead key (keys.filter (· != other)) = (ahead key keys).filter (· != other) := by
  induction keys with
  | nil => rfl
  | cons first rest ih =>
      by_cases hkey : first = key
      · subst hkey
        rw [List.filter_cons, if_pos (bne_iff_ne.2 (Ne.symm h)), ahead_cons_self, ahead_cons_self]
        rfl
      · rw [ahead_cons_of_ne hkey, List.filter_cons, List.filter_cons, ← ih]
        by_cases hother : first = other
        · rw [if_neg (by rw [hother, bne_self_eq_false]; exact Bool.false_ne_true),
            if_neg (by rw [hother, bne_self_eq_false]; exact Bool.false_ne_true)]
        · rw [if_pos (bne_iff_ne.2 hother), if_pos (bne_iff_ne.2 hother), ahead_cons_of_ne hkey]

/-- What was used more recently than a key was used after its last use. -/
theorem ahead_recent (key : String) (uses : List String) :
    ahead key (recent uses) = recent (ahead key uses) := by
  induction uses with
  | nil => rfl
  | cons first earlier ih =>
      by_cases h : first = key
      · subst h
        rw [recent, toFront, ahead_cons_self, ahead_cons_self]
        rfl
      · rw [recent, toFront, ahead_cons_of_ne h, ahead_cons_of_ne h, ahead_filter h, ih]
        rfl

/-- The position of a key is the number of keys ahead of it. -/
theorem idxOf_eq_length_ahead {keys : List String} {key : String} (h : key ∈ keys) :
    keys.idxOf key = (ahead key keys).length := by
  induction keys with
  | nil => exact nomatch h
  | cons first rest ih =>
      by_cases hkey : first = key
      · subst hkey
        rw [List.idxOf_cons_self, ahead_cons_self]
        rfl
      · rw [List.idxOf_cons_ne rest hkey, ahead_cons_of_ne hkey, List.length_cons,
          ih ((List.mem_cons.1 h).resolve_left (Ne.symm hkey))]

/-- A key stands behind as many others as have been used since it was. -/
theorem idxOf_recent {uses : List String} {key : String} (h : key ∈ uses) :
    (recent uses).idxOf key = (ahead key uses).toFinset.card := by
  rw [idxOf_eq_length_ahead (mem_recent_iff.2 h), ahead_recent, length_recent]

/-- Among fewer keys, a key stands no further back. -/
theorem idxOf_le_of_sublist {keys all : List String} {key : String} (h : keys.Sublist all)
    (hall : all.Nodup) (hmem : key ∈ keys) : keys.idxOf key ≤ all.idxOf key := by
  induction h with
  | slnil => exact Nat.le_refl _
  | cons first hrest ih =>
      have hne : first ≠ key := by
        rintro rfl
        exact (List.nodup_cons.1 hall).1 (hrest.subset hmem)
      rw [List.idxOf_cons_ne _ hne]
      exact Nat.le_succ_of_le (ih (List.nodup_cons.1 hall).2 hmem)
  | cons_cons first hrest ih =>
      by_cases hkey : first = key
      · subst hkey
        rw [List.idxOf_cons_self, List.idxOf_cons_self]
      · rw [List.idxOf_cons_ne _ hkey, List.idxOf_cons_ne _ hkey]
        exact Nat.succ_le_succ (ih (List.nodup_cons.1 hall).2
          ((List.mem_cons.1 hmem).resolve_left (Ne.symm hkey)))

namespace Cache

variable {α : Type u}

/-! ## Histories -/

/-- An operation on a cache, or the passing of time. -/
inductive Operation (α : Type u) where
  | lookup (key : String)
  | insert (key : String) (value : α)
  | clear
  | pass (milliseconds : Nat)

/-- What happened to a cache; a lookup finds a value or misses. -/
inductive Event (α : Type u) where
  | inserted (key : String) (value : α) (time : Nat)
  | found (key : String)
  | missed (key : String)
  | cleared

/-- A cache with the time and all that has happened to it, the latest first. -/
structure History (α : Type u) where
  cache : Cache α
  now : Nat
  events : List (Event α)

/-- The event of a lookup. -/
def Event.ofLookup (key : String) : Option α → Event α
  | some _ => .found key
  | none => .missed key

namespace History

/-- What the cache answers to a lookup now, and what the lookup leaves of it. -/
def lookup (history : History α) (key : String) : Option α × Cache α :=
  history.cache.lookup history.now key

/-- The history after an operation. -/
def after (history : History α) : Operation α → History α
  | .lookup key =>
      { history with
        cache := (history.lookup key).2
        events := .ofLookup key (history.lookup key).1 :: history.events }
  | .insert key value =>
      { history with
        cache := history.cache.insert history.now key value
        events := .inserted key value history.now :: history.events }
  | .clear =>
      { history with cache := history.cache.clear, events := .cleared :: history.events }
  | .pass milliseconds => { history with now := history.now + milliseconds }

/-- The history of a new cache after some operations. -/
def run (capacity : Nat) (maxAge : Option Nat) (operations : List (Operation α)) : History α :=
  operations.foldl after ⟨.empty capacity maxAge, 0, []⟩

end History

/-! ## What a history says of a key -/

/-- The key that an event uses. -/
def Event.use? : Event α → Option String
  | .inserted key _ _ => some key
  | .found key => some key
  | .missed _ => none
  | .cleared => none

/-- How many other keys have been used since the key was. -/
def othersSince (key : String) (events : List (Event α)) : Nat :=
  (ahead key (events.filterMap Event.use?)).toFinset.card

/-- The latest insertion of the key since the cache was cleared: the value, and when. -/
def latest? (key : String) : List (Event α) → Option (α × Nat)
  | [] => none
  | .inserted other value time :: earlier =>
      if other = key then some (value, time) else latest? key earlier
  | .found _ :: earlier => latest? key earlier
  | .missed _ :: earlier => latest? key earlier
  | .cleared :: _ => none

/-- Whether a lookup of the key has missed since it was inserted. -/
def MissedSince (key : String) : List (Event α) → Prop
  | [] => False
  | .inserted other _ _ :: earlier => other ≠ key ∧ MissedSince key earlier
  | .found _ :: earlier => MissedSince key earlier
  | .missed other :: earlier => other = key ∨ MissedSince key earlier
  | .cleared :: earlier => MissedSince key earlier

/-! ## Keys and entries -/

/-- The keys in the cache, in the order of its entries. -/
def keys (cache : Cache α) : List String := cache.entries.map Entry.key

theorem size_eq_length_keys (cache : Cache α) : cache.size = cache.keys.length :=
  (List.length_map _).symm

theorem map_key_others (cache : Cache α) (key : String) :
    (cache.others key).map Entry.key = cache.keys.filter (· != key) := by
  rw [keys, List.filter_map]
  rfl

/-- **INSERTING MOVES THE KEY TO THE FRONT** and drops what exceeds the capacity. -/
theorem keys_insert (cache : Cache α) (now : Nat) (key : String) (value : α) :
    (cache.insert now key value).keys = (toFront key cache.keys).take cache.capacity := by
  rw [keys, insert, List.map_take, List.map_cons, map_key_others]
  rfl

theorem entry?_eq_none_iff {cache : Cache α} {key : String} :
    cache.entry? key = none ↔ key ∉ cache.keys := by
  rw [ entry?, List.find?_eq_none, keys, List.mem_map]
  simp only [beq_iff_eq, not_exists, not_and]

theorem mem_entries_of_entry? {cache : Cache α} {key : String} {entry : Entry α}
    (h : cache.entry? key = some entry) : entry ∈ cache.entries ∧ entry.key = key :=
  ⟨List.mem_of_find?_eq_some h, by simpa using List.find?_some h⟩

/-- An entry expires when its age exceeds the limit, if there is one. -/
theorem isExpired_iff {cache : Cache α} {now : Nat} {entry : Entry α} :
    cache.isExpired now entry = true
      ↔ ∃ limit, cache.maxAge = some limit ∧ limit < now - entry.born := by
  unfold isExpired
  cases cache.maxAge with
  | none => simp
  | some limit => simp

/-- What becomes of a lookup: there is no entry under the key, or one that is too old, or
    one that is found. -/
theorem lookup_cases (cache : Cache α) (now : Nat) (key : String) :
    (key ∉ cache.keys ∧ cache.lookup now key = (none, cache))
      ∨ (∃ entry ∈ cache.entries, entry.key = key
          ∧ ((cache.isExpired now entry = true
              ∧ cache.lookup now key = (none, { cache with entries := cache.others key }))
            ∨ (cache.isExpired now entry = false
              ∧ cache.lookup now key
                = (some entry.value, { cache with entries := entry :: cache.others key })))) := by
  rw [← entry?_eq_none_iff]
  unfold lookup
  cases he : cache.entry? key with
  | none => exact .inl ⟨rfl, rfl⟩
  | some entry =>
      obtain ⟨hmem, hkey⟩ := mem_entries_of_entry? he
      refine .inr ⟨entry, hmem, hkey, ?_⟩
      cases hx : cache.isExpired now entry with
      | true => exact .inl ⟨rfl, if_pos hx⟩
      | false => exact .inr ⟨rfl, if_neg (by rw [hx]; exact Bool.false_ne_true)⟩

/-! ## What every operation keeps -/

/-- The cache holds what its history says. -/
structure Tracks (capacity : Nat) (maxAge : Option Nat) (history : History α) : Prop where
  capacity_eq : history.cache.capacity = capacity
  maxAge_eq : history.cache.maxAge = maxAge
  /-- There are no more entries than there is room for. -/
  bounded : history.cache.size ≤ capacity
  /-- The keys stand in the order of their last use. -/
  order : history.cache.keys.Sublist (recent (history.events.filterMap Event.use?))
  /-- Every entry is the latest insertion of its key. -/
  recorded : ∀ entry ∈ history.cache.entries,
    latest? entry.key history.events = some (entry.value, entry.born)
  /-- A key with few others since is there, unless it was looked up too late. -/
  held : ∀ key value time, latest? key history.events = some (value, time) →
    othersSince key history.events < capacity → key ∈ history.cache.keys
      ∨ (MissedSince key history.events ∧ ∃ limit, maxAge = some limit ∧ limit < history.now - time)
  /-- Without an age limit, only the keys that were used least lately are gone. -/
  unlimited : maxAge = none →
    history.cache.keys <+: recent (history.events.filterMap Event.use?)

/-- Another use leaves no fewer others. -/
theorem othersSince_le_cons {key used : String} {event : Event α} (huse : event.use? = some used)
    (hne : used ≠ key) (events : List (Event α)) :
    othersSince key events ≤ othersSince key (event :: events) := by
  rw [othersSince, othersSince, List.filterMap_cons_some huse, ahead_cons_of_ne hne,
    List.toFinset_cons]
  exact Finset.card_le_card (Finset.subset_insert _ _)

/-- A key with few others since it was used stands within the capacity. -/
theorem mem_take_of_othersSince_lt {keys : List String} {key : String} {events : List (Event α)}
    {capacity : Nat} (horder : keys.Sublist (recent (events.filterMap Event.use?)))
    (hmem : key ∈ keys) (hfew : othersSince key events < capacity) : key ∈ keys.take capacity := by
  refine (List.mem_take_iff_idxOf_lt hmem).2 (Nat.lt_of_le_of_lt ?_ hfew)
  rw [othersSince, ← idxOf_recent (mem_recent_iff.1 (horder.subset hmem))]
  exact idxOf_le_of_sublist horder (nodup_recent _) hmem

namespace Tracks

variable {capacity : Nat} {maxAge : Option Nat} {history : History α}

/-- A new cache tracks the empty history. -/
theorem begin (capacity : Nat) (maxAge : Option Nat) :
    Tracks (max 1 capacity) maxAge (History.run capacity maxAge ([] : List (Operation α))) where
  capacity_eq := rfl
  maxAge_eq := rfl
  bounded := Nat.zero_le _
  order := List.nil_sublist _
  recorded := nofun
  held := nofun
  unlimited _ := List.nil_prefix

theorem nodup_keys (h : Tracks capacity maxAge history) : history.cache.keys.Nodup :=
  h.order.nodup (nodup_recent _)

/-- What stands under a key is its latest insertion. -/
theorem eq_of_latest? (h : Tracks capacity maxAge history) {entry : Entry α} {value : α} {time : Nat}
    (hmem : entry ∈ history.cache.entries)
    (hlatest : latest? entry.key history.events = some (value, time)) :
    entry.value = value ∧ entry.born = time := by
  have hsame := (h.recorded entry hmem).symm.trans hlatest
  exact Prod.mk.inj (Option.some.inj hsame)

/-- A use of a key puts it in front of the keys, as it puts it in front of the uses. -/
theorem order_toFront (h : Tracks capacity maxAge history) (key : String) :
    (toFront key history.cache.keys).Sublist
      (recent (key :: history.events.filterMap Event.use?)) :=
  (h.order.filter _).cons_cons key

/-- Without a limit of age the keys of the cache are the most recent ones, also after a use. -/
theorem unlimited_toFront (h : Tracks capacity maxAge history) (hnone : maxAge = none)
    (key : String) :
    toFront key history.cache.keys <+: recent (key :: history.events.filterMap Event.use?) :=
  (List.prefix_cons_inj key).2 ((h.unlimited hnone).filter _)

/-- Time passes without a change of the entries. -/
theorem pass (h : Tracks capacity maxAge history) (milliseconds : Nat) :
    Tracks capacity maxAge (history.after (.pass milliseconds)) where
  capacity_eq := h.capacity_eq
  maxAge_eq := h.maxAge_eq
  bounded := h.bounded
  order := h.order
  recorded := h.recorded
  held key value time hlatest hfew := by
    refine (h.held key value time hlatest hfew).imp_right ?_
    rintro ⟨hmissed, limit, hage, hlate⟩
    refine ⟨hmissed, limit, hage, ?_⟩
    show limit < history.now + milliseconds - time
    omega
  unlimited := h.unlimited

/-- Clearing leaves nothing to track. -/
theorem clear (h : Tracks capacity maxAge history) :
    Tracks capacity maxAge (history.after .clear) where
  capacity_eq := h.capacity_eq
  maxAge_eq := h.maxAge_eq
  bounded := Nat.zero_le _
  order := List.nil_sublist _
  recorded := nofun
  held := nofun
  unlimited _ := List.nil_prefix

/-- **INSERTING KEEPS TRACK**: the key becomes the most recent one. -/
theorem insert (h : Tracks capacity maxAge history) (key : String) (value : α) :
    Tracks capacity maxAge (history.after (.insert key value)) := by
  have horder := h.order_toFront key
  have hkeys : (history.after (.insert key value)).cache.keys
      = (toFront key history.cache.keys).take capacity := by
    rw [← h.capacity_eq]
    exact keys_insert history.cache history.now key value
  refine ⟨h.capacity_eq, h.maxAge_eq, ?_, ?_, ?_, ?_, ?_⟩
  · rw [← h.capacity_eq]
    exact length_insert_le history.cache history.now key value
  · rw [hkeys]
    exact (List.take_sublist _ _).trans horder
  -- what was recorded of the key is replaced, and of other keys it stays
  · intro entry hmem
    rcases List.mem_cons.1 (List.mem_of_mem_take hmem) with rfl | hother
    · exact if_pos rfl
    · obtain ⟨hentry, hne⟩ := List.mem_filter.1 hother
      rw [bne_iff_ne] at hne
      exact (if_neg (Ne.symm hne)).trans (h.recorded entry hentry)
  · intro other last time hlatest hfew
    rw [hkeys]
    -- few others since the last use means a place near the front, which the cut does not reach
    have hstands : ∀ used ∈ toFront key history.cache.keys,
        othersSince used (.inserted key value history.now :: history.events) < capacity →
        used ∈ (toFront key history.cache.keys).take capacity :=
      fun _ => mem_take_of_othersSince_lt horder
    by_cases hkey : key = other
    · subst hkey
      exact .inl (hstands key (mem_toFront_iff.2 (.inl rfl)) hfew)
    · have hbefore : latest? other history.events = some (last, time) :=
        (if_neg hkey).symm.trans hlatest
      have hfewer : othersSince other history.events < capacity :=
        Nat.lt_of_le_of_lt (othersSince_le_cons rfl hkey history.events) hfew
      refine (h.held other last time hbefore hfewer).imp (fun hmem => ?_) fun hmissed => ?_
      · exact hstands other (mem_toFront_iff.2 (.inr hmem)) hfew
      · exact ⟨⟨hkey, hmissed.1⟩, hmissed.2⟩
  · intro hnone
    rw [hkeys]
    exact (List.take_prefix _ _).trans
      (h.unlimited_toFront hnone key)

/-- A lookup that misses and removes nothing. -/
theorem miss (h : Tracks capacity maxAge history) (key : String) :
    Tracks capacity maxAge { history with events := .missed key :: history.events } where
  capacity_eq := h.capacity_eq
  maxAge_eq := h.maxAge_eq
  bounded := h.bounded
  order := h.order
  recorded := h.recorded
  held other value time hlatest hfew := by
    refine (h.held other value time hlatest hfew).imp_right fun hmissed => ?_
    exact ⟨.inr hmissed.1, hmissed.2⟩
  unlimited := h.unlimited

/-- A lookup of an entry that is too old. -/
theorem expire (h : Tracks capacity maxAge history) {entry : Entry α}
    (hmem : entry ∈ history.cache.entries)
    (hlate : ∃ limit, maxAge = some limit ∧ limit < history.now - entry.born) :
    Tracks capacity maxAge
      { history with
        cache := { history.cache with entries := history.cache.others entry.key }
        events := .missed entry.key :: history.events } where
  capacity_eq := h.capacity_eq
  maxAge_eq := h.maxAge_eq
  bounded := Nat.le_trans (length_others_le _ _) h.bounded
  order := by
    show ((history.cache.others entry.key).map Entry.key).Sublist _
    rw [map_key_others]
    exact List.filter_sublist.trans h.order
  recorded other hother := h.recorded other (List.mem_filter.1 hother).1
  held key value time hlatest hfew := by
    have hlatest : latest? key history.events = some (value, time) := hlatest
    -- the key that has expired is recorded as missed, the others are where they were
    by_cases hkey : entry.key = key
    · subst hkey
      obtain ⟨-, rfl⟩ := h.eq_of_latest? hmem hlatest
      exact .inr ⟨.inl rfl, hlate⟩
    · refine (h.held key value time hlatest hfew).imp (fun hheld => ?_) fun hmissed => ?_
      · show key ∈ (history.cache.others entry.key).map Entry.key
        rw [map_key_others]
        exact List.mem_filter.2 ⟨hheld, bne_iff_ne.2 (Ne.symm hkey)⟩
      · exact ⟨.inr hmissed.1, hmissed.2⟩
  unlimited hnone := by
    obtain ⟨limit, hsome, -⟩ := hlate
    exact nomatch hnone.symm.trans hsome

/-- A lookup that finds an entry. -/
theorem find (h : Tracks capacity maxAge history) {entry : Entry α}
    (hmem : entry ∈ history.cache.entries) :
    Tracks capacity maxAge
      { history with
        cache := { history.cache with entries := entry :: history.cache.others entry.key }
        events := .found entry.key :: history.events } := by
  have hkeys : (entry :: history.cache.others entry.key).map Entry.key
      = toFront entry.key history.cache.keys := by
    rw [List.map_cons, map_key_others]
    rfl
  have horder := h.order_toFront entry.key
  have hheld : entry.key ∈ history.cache.keys := List.mem_map_of_mem hmem
  refine ⟨h.capacity_eq, h.maxAge_eq, ?_, ?_, ?_, ?_, ?_⟩
  · -- the keys are those that there were
    have hsubset : toFront entry.key history.cache.keys ⊆ history.cache.keys := by
      intro key hkey
      rcases mem_toFront_iff.1 hkey with rfl | hkey
      · exact hheld
      · exact hkey
    have hlength := ((horder.nodup (nodup_recent _)).subperm hsubset).length_le
    rw [← hkeys, List.length_map, ← size_eq_length_keys] at hlength
    exact Nat.le_trans hlength h.bounded
  · show ((entry :: history.cache.others entry.key).map Entry.key).Sublist _
    rw [hkeys]
    exact horder
  · intro other hother
    rcases List.mem_cons.1 hother with rfl | hother
    · exact h.recorded _ hmem
    · exact h.recorded other (List.mem_filter.1 hother).1
  -- the key that was found is in front, and the others move back by one place at most
  · intro key value time hlatest hfew
    have hlatest : latest? key history.events = some (value, time) := hlatest
    by_cases hkey : entry.key = key
    · exact .inl (hkey ▸ List.mem_map_of_mem List.mem_cons_self)
    · have hfewer : othersSince key history.events < capacity :=
        Nat.lt_of_le_of_lt (othersSince_le_cons rfl hkey history.events) hfew
      refine (h.held key value time hlatest hfewer).imp (fun hbefore => ?_) id
      show key ∈ (entry :: history.cache.others entry.key).map Entry.key
      rw [hkeys]
      exact mem_toFront_iff.2 (.inr hbefore)
  · intro hnone
    show (entry :: history.cache.others entry.key).map Entry.key <+: _
    rw [hkeys]
    exact h.unlimited_toFront hnone entry.key

/-- **LOOKING UP KEEPS TRACK**: a hit becomes the most recent key, and an entry that
    expired goes. -/
theorem lookup (h : Tracks capacity maxAge history) (key : String) :
    Tracks capacity maxAge (history.after (.lookup key)) := by
  have hafter : history.after (.lookup key)
      = ⟨(history.cache.lookup history.now key).2, history.now,
          .ofLookup key (history.cache.lookup history.now key).1 :: history.events⟩ := rfl
  rw [hafter]
  rcases lookup_cases history.cache history.now key with
    ⟨-, heq⟩ | ⟨entry, hmem, rfl, ⟨hlate, heq⟩ | ⟨-, heq⟩⟩
  · rw [heq]
    exact h.miss key
  · rw [heq]
    refine h.expire hmem ?_
    rw [← h.maxAge_eq]
    exact isExpired_iff.1 hlate
  · rw [heq]
    exact h.find hmem

/-- **EVERY OPERATION KEEPS TRACK.** -/
theorem after (h : Tracks capacity maxAge history) (operation : Operation α) :
    Tracks capacity maxAge (history.after operation) := by
  cases operation with
  | lookup key => exact h.lookup key
  | insert key value => exact h.insert key value
  | clear => exact h.clear
  | pass milliseconds => exact h.pass milliseconds

end Tracks

/-- After any operations, the cache holds what its history says. -/
theorem tracks_run (capacity : Nat) (maxAge : Option Nat) (operations : List (Operation α)) :
    Tracks (max 1 capacity) maxAge (History.run capacity maxAge operations) := by
  have hfrom : ∀ (rest : List (Operation α)) {history : History α},
      Tracks (max 1 capacity) maxAge history →
      Tracks (max 1 capacity) maxAge (rest.foldl History.after history) := by
    intro rest
    induction rest with
    | nil => exact id
    | cons operation rest ih => exact fun h => ih (h.after operation)
  exact hfrom operations (.begin capacity maxAge)

/-! ## What a lookup finds -/

/-- What a cache with room for `capacity` entries comes to when a key is looked up at the
    end of a history. -/
structure Answers (capacity : Nat) (maxAge : Option Nat) (history : History α) (key : String) :
    Prop where
  /-- There are no more entries than there is room for. -/
  bounded : history.cache.size ≤ capacity
  /-- Nothing is found but the latest insertion of the key. -/
  faithful : ∀ value, (history.lookup key).1 = some value →
    ∃ time, latest? key history.events = some (value, time)
  /-- A lookup too long after that insertion finds nothing, and leaves no entry under the
      key; if there was one, it counted until then. -/
  aged : ∀ value time limit, latest? key history.events = some (value, time) →
    maxAge = some limit → limit < history.now - time →
    (history.lookup key).1 = none ∧ key ∉ (history.lookup key).2.keys
      ∧ (key ∈ history.cache.keys → (history.lookup key).2.size + 1 = history.cache.size)
  /-- There is one if fewer others have been used since the key was than there is room for,
      and no lookup has missed it. -/
  counted : ∀ value time, latest? key history.events = some (value, time) →
    othersSince key history.events < capacity → ¬ MissedSince key history.events →
    key ∈ history.cache.keys
  /-- A lookup in time finds the value, if fewer others have been used. -/
  fresh : ∀ value time, latest? key history.events = some (value, time) →
    othersSince key history.events < capacity →
    (∀ limit, maxAge = some limit → history.now - time ≤ limit) →
    (history.lookup key).1 = some value
  /-- Without an age limit, that is when there is a value to be found. -/
  unlimited : maxAge = none →
    ((history.lookup key).1.isSome = true
      ↔ (latest? key history.events).isSome = true ∧ othersSince key history.events < capacity)

section

variable {capacity : Nat} {maxAge : Option Nat} {history : History α} {key : String}

/-- An entry that is too old is not found, and goes. -/
theorem lookup_of_aged (h : Tracks capacity maxAge history) {value : α} {time limit : Nat}
    (hlatest : latest? key history.events = some (value, time)) (hage : maxAge = some limit)
    (hlate : limit < history.now - time) :
    (history.lookup key).1 = none ∧ key ∉ (history.lookup key).2.keys
      ∧ (key ∈ history.cache.keys → (history.lookup key).2.size + 1 = history.cache.size) := by
  rw [History.lookup]
  rcases lookup_cases history.cache history.now key with
    ⟨habsent, heq⟩ | ⟨entry, hmem, rfl, ⟨-, heq⟩ | ⟨hfresh, -⟩⟩
  · rw [heq]
    exact ⟨rfl, habsent, fun hheld => absurd hheld habsent⟩
  · have hkeys : ({ history.cache with entries := history.cache.others entry.key } : Cache α).keys
        = history.cache.keys.filter (· != entry.key) := map_key_others _ _
    rw [heq]
    refine ⟨rfl, ?_, fun hheld => ?_⟩
    · rw [hkeys, List.mem_filter]
      exact fun hkept => bne_iff_ne.1 hkept.2 rfl
    · have hpos : 0 < history.cache.keys.length := List.length_pos_of_mem hheld
      rw [size_eq_length_keys, hkeys, ← h.nodup_keys.erase_eq_filter,
        List.length_erase_of_mem hheld, size_eq_length_keys]
      omega
  · -- the entry under the key is the latest insertion, so it is too old
    obtain ⟨-, rfl⟩ := h.eq_of_latest? hmem hlatest
    have hexpired := isExpired_iff.2 ⟨limit, h.maxAge_eq.trans hage, hlate⟩
    exact absurd (hfresh.symm.trans hexpired) Bool.false_ne_true

/-- An entry that is fresh is found, if fewer keys than the capacity were used since. -/
theorem lookup_of_fresh (h : Tracks capacity maxAge history) {value : α} {time : Nat}
    (hlatest : latest? key history.events = some (value, time))
    (hfew : othersSince key history.events < capacity)
    (hfresh : ∀ limit, maxAge = some limit → history.now - time ≤ limit) :
    (history.lookup key).1 = some value := by
  have hheld : key ∈ history.cache.keys := by
    rcases h.held key value time hlatest hfew with hheld | ⟨-, limit, hage, hlate⟩
    · exact hheld
    · exact absurd (hfresh limit hage) (Nat.not_le_of_lt hlate)
  rw [History.lookup]
  rcases lookup_cases history.cache history.now key with
    ⟨habsent, -⟩ | ⟨entry, hmem, rfl, ⟨hexpired, -⟩ | ⟨-, heq⟩⟩
  · exact absurd hheld habsent
  · obtain ⟨-, rfl⟩ := h.eq_of_latest? hmem hlatest
    obtain ⟨limit, hage, hlate⟩ := isExpired_iff.1 hexpired
    exact absurd (hfresh limit (h.maxAge_eq.symm.trans hage)) (Nat.not_le_of_lt hlate)
  · obtain ⟨rfl, -⟩ := h.eq_of_latest? hmem hlatest
    rw [heq]

/-- Without an age limit, a key that is there has few others since. -/
theorem othersSince_lt_of_mem_keys (h : Tracks capacity none history)
    (hheld : key ∈ history.cache.keys) : othersSince key history.events < capacity := by
  have horder := h.unlimited rfl
  rw [othersSince, ← idxOf_recent (mem_recent_iff.1 (horder.subset hheld)),
    ← horder.idxOf_eq_of_mem hheld]
  have hbounded := h.bounded
  rw [size_eq_length_keys] at hbounded
  exact Nat.lt_of_lt_of_le (List.idxOf_lt_length_of_mem hheld) hbounded

/-- What a tracked cache answers is what its history says. -/
theorem answers_of_tracks (h : Tracks capacity maxAge history) :
    Answers capacity maxAge history key where
  bounded := h.bounded
  faithful value hfound := by
    obtain ⟨entry, hmem, rfl, rfl⟩ := mem_of_lookup_eq_some hfound
    exact ⟨entry.born, h.recorded entry hmem⟩
  aged value time limit := lookup_of_aged h
  counted value time hlatest hfew hnever :=
    (h.held key value time hlatest hfew).resolve_right fun hmissed => hnever hmissed.1
  fresh value time := lookup_of_fresh h
  unlimited hnone := by
    subst hnone
    constructor
    · intro hsome
      obtain ⟨value, hfound⟩ := Option.isSome_iff_exists.1 hsome
      obtain ⟨entry, hmem, rfl, rfl⟩ := mem_of_lookup_eq_some hfound
      rw [h.recorded entry hmem]
      exact ⟨rfl, othersSince_lt_of_mem_keys h (List.mem_map_of_mem hmem)⟩
    · rintro ⟨hsome, hfew⟩
      obtain ⟨⟨value, time⟩, hlatest⟩ := Option.isSome_iff_exists.1 hsome
      rw [lookup_of_fresh h hlatest hfew nofun]
      rfl

end

/-- **LOOKUPS ANSWER WHAT THE HISTORY SAYS**, whatever the capacity and the age limit are
    and whatever has been done with the cache; there is room for one entry at least. -/
theorem lookups_answer_history (capacity : Nat) (maxAge : Option Nat)
    (operations : List (Operation α)) (key : String) :
    Answers (max 1 capacity) maxAge (History.run capacity maxAge operations) key :=
  answers_of_tracks (tracks_run capacity maxAge operations)

/-- A lookup makes the other key the one to go. -/
example :
    let history := History.run 2 none
      [.insert "a" 1, .insert "b" 2, .lookup "a", .insert "c" 3]
    (history.lookup "a").1 = some 1 ∧ (history.lookup "b").1 = none
      ∧ othersSince "b" history.events = 2 := by
  decide

end Cache

end Conform

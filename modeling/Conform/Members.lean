/-! # Members — ordered lists of named values

    The members of a JSON object, the fields of an object schema, the
    parameters of a message and the tables of a catalog are all lists of
    named values that remember the order in which names first arrived.

    Main facts: what was put is what is found (`valueOf?_put_self`), putting
    one name leaves the others alone (`valueOf?_put_of_ne`), and a name that
    was there already keeps its place (`names_put`). -/

namespace Conform

universe u v

/-- Named values in the order of their names' first arrival. -/
abbrev Members (α : Type u) : Type u := List (String × α)

namespace Members

variable {α : Type u} {β : Type v}

/-- The value under `name`; the first one counts. -/
def valueOf? : Members α → String → Option α
  | [], _ => none
  | (key, value) :: rest, name => if key = name then some value else valueOf? rest name

/-- Whether some member has this name. -/
def hasName (members : Members α) (name : String) : Bool :=
  (valueOf? members name).isSome

/-- The names in order. -/
def names (members : Members α) : List String :=
  members.map Prod.fst

/-- Sets the value under `name`: a name already there keeps its place, a new
    one goes to the end. -/
def put : Members α → String → α → Members α
  | [], name, value => [(name, value)]
  | (key, old) :: rest, name, value =>
      if key = name then (key, value) :: rest else (key, old) :: put rest name value

/-- Removes the member called `name`; the others keep their order. -/
def without : Members α → String → Members α
  | [], _ => []
  | (key, value) :: rest, name =>
      if key = name then rest else (key, value) :: without rest name

/-- Puts every member of `extra` into `base`, in order. -/
def merge (base extra : Members α) : Members α :=
  extra.foldl (fun acc entry => put acc entry.1 entry.2) base

/-- Applies a function to every value, keeping names and order. -/
def mapValues (f : α → β) (members : Members α) : Members β :=
  members.map fun entry => (entry.1, f entry.2)

theorem valueOf?_cons (key : String) (value : α) (rest : Members α) (name : String) :
    valueOf? ((key, value) :: rest) name
      = if key = name then some value else valueOf? rest name := rfl

/-- What was put is what is found. -/
@[simp] theorem valueOf?_put_self (members : Members α) (name : String) (value : α) :
    valueOf? (put members name value) name = some value := by
  induction members with
  | nil => simp [put, valueOf?]
  | cons head rest ih =>
      obtain ⟨key, old⟩ := head
      by_cases h : key = name <;> simp [put, valueOf?, h, ih]

/-- Putting one name leaves every other name alone. -/
theorem valueOf?_put_of_ne (members : Members α) {name other : String} (value : α)
    (hne : other ≠ name) :
    valueOf? (put members name value) other = valueOf? members other := by
  induction members with
  | nil => simp [put, valueOf?, Ne.symm hne]
  | cons head rest ih =>
      obtain ⟨key, old⟩ := head
      by_cases h : key = name
      · subst h
        simp [put, valueOf?, Ne.symm hne]
      · rw [put, if_neg h, valueOf?, valueOf?, ih]

theorem hasName_cons (key : String) (value : α) (rest : Members α) (name : String) :
    hasName ((key, value) :: rest) name = if key = name then true else hasName rest name := by
  unfold hasName
  rw [valueOf?]
  split <;> rfl

/-- A name is there exactly if it is one of the names. -/
theorem hasName_iff_mem_names {members : Members α} {name : String} :
    hasName members name = true ↔ name ∈ names members := by
  induction members with
  | nil => exact ⟨nofun, nofun⟩
  | cons head rest ih =>
      obtain ⟨key, value⟩ := head
      rw [hasName_cons, show names ((key, value) :: rest) = key :: names rest from rfl, List.mem_cons,
        ← ih]
      by_cases h : key = name
      · rw [if_pos h]
        exact ⟨fun _ => .inl h.symm, fun _ => rfl⟩
      · rw [if_neg h]
        exact ⟨.inr, fun hmem => hmem.resolve_left fun heq => h heq.symm⟩

/-- A name that is there keeps its place; a new one is the last. -/
theorem names_put (members : Members α) (name : String) (value : α) :
    names (put members name value)
      = if hasName members name then names members else names members ++ [name] := by
  induction members with
  | nil => rfl
  | cons head rest ih =>
      obtain ⟨key, old⟩ := head
      rw [hasName_cons]
      by_cases h : key = name
      · rw [put, if_pos h, if_pos h]
        rfl
      · rw [put, if_neg h, if_neg h]
        show key :: names (put rest name value) = _
        rw [ih]
        by_cases h2 : hasName rest name = true
        · rw [if_pos h2, if_pos h2]
          rfl
        · rw [if_neg h2, if_neg h2]
          rfl

/-- What is found is the value of a member of that name. -/
theorem mem_of_valueOf?_eq_some {members : Members α} {name : String} {value : α}
    (h : valueOf? members name = some value) : (name, value) ∈ members := by
  induction members with
  | nil => exact nomatch h
  | cons head rest ih =>
      obtain ⟨key, old⟩ := head
      rw [valueOf?_cons] at h
      by_cases hk : key = name
      · rw [if_pos hk, Option.some.injEq] at h
        rw [hk, h]
        exact List.mem_cons_self
      · rw [if_neg hk] at h
        exact List.mem_cons_of_mem _ (ih h)

/-- A member after a value was put is the one that was put, or was there before. -/
theorem mem_of_mem_put {members : Members α} {name : String} {value : α} {entry : String × α}
    (h : entry ∈ put members name value) : entry = (name, value) ∨ entry ∈ members := by
  induction members with
  | nil => exact Or.inl (List.mem_singleton.1 h)
  | cons head rest ih =>
      obtain ⟨key, old⟩ := head
      rw [put] at h
      by_cases hk : key = name
      · rw [if_pos hk, hk] at h
        rcases List.mem_cons.1 h with heq | hrest
        · exact Or.inl heq
        · exact Or.inr (List.mem_cons_of_mem _ hrest)
      · rw [if_neg hk] at h
        rcases List.mem_cons.1 h with heq | hrest
        · exact Or.inr (heq ▸ List.mem_cons_self)
        · exact (ih hrest).imp id (List.mem_cons_of_mem _)

/-- A name that is not there is put at the end. -/
theorem put_of_ne {members : Members α} {name : String} (value : α)
    (h : ∀ entry ∈ members, entry.1 ≠ name) :
    put members name value = members ++ [(name, value)] := by
  induction members with
  | nil => rfl
  | cons entry rest ih =>
      rw [put, if_neg (h entry List.mem_cons_self),
        ih fun other hother => h other (List.mem_cons_of_mem _ hother)]
      rfl

/-- Looking up commutes with a change of the values. -/
theorem valueOf?_mapValues (f : α → β) (members : Members α) (name : String) :
    valueOf? (mapValues f members) name = (valueOf? members name).map f := by
  induction members with
  | nil => rfl
  | cons head rest ih =>
      obtain ⟨key, old⟩ := head
      by_cases h : key = name
      · simp [mapValues, valueOf?, h]
      · simp only [mapValues, List.map_cons, valueOf?, h, ↓reduceIte] at ih ⊢
        exact ih

/-- A change of the values keeps the names. -/
theorem hasName_mapValues (f : α → β) (members : Members α) (name : String) :
    hasName (mapValues f members) name = hasName members name := by
  unfold hasName
  rw [valueOf?_mapValues, Option.isSome_map]

theorem map_snd_mapValues (f : α → β) (members : Members α) :
    (mapValues f members).map Prod.snd = (members.map Prod.snd).map f := by
  rw [mapValues, List.map_map, List.map_map]
  rfl

theorem isEmpty_mapValues (f : α → β) (members : Members α) :
    (mapValues f members).isEmpty = members.isEmpty := by
  cases members <;> rfl

end Members

end Conform

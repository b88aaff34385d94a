import Conform.Export
import Conform.Proofs.Keywords
import Conform.Proofs.Lawful
import Conform.Proofs.Rounding

/-! # Limits — clauses as keywords

    Bounds are doubles that are written as numbers.  A double that is not finite is
    written as null, which is no bound; a strict bound on a count is written as the
    next bound that is not strict.

    A clause that is kept is accepted as keywords (`allow_clause_of_check`).  One that
    is accepted is kept, as long as no end of it is an infinity and the counts are those
    that doubles tell apart (`check_of_allow_clause`). -/

namespace Conform

/-! ## Values -/

namespace Json

/-- The value is not null, and an integer is one of 64 bits, with a sign or without. -/
def IsDatum : Json → Prop
  | .null => False
  | .integer n => -2 ^ 63 ≤ n ∧ n < 2 ^ 64
  | _ => True

/-- Text, items and members are fewer than `2 ^ 53`. -/
def IsModest : Json → Prop
  | .string text => text.length < 2 ^ 53
  | .array items => items.length < 2 ^ 53
  | .object members => members.length < 2 ^ 53
  | _ => True

instance : DecidablePred IsModest
  | .string text => inferInstanceAs (Decidable (text.length < 2 ^ 53))
  | .array items => inferInstanceAs (Decidable (items.length < 2 ^ 53))
  | .object members => inferInstanceAs (Decidable (members.length < 2 ^ 53))
  | .null => .isTrue trivial
  | .bool _ => .isTrue trivial
  | .integer _ => .isTrue trivial
  | .float _ => .isTrue trivial

variable {value : Json}

/-- A datum is not null. -/
theorem IsDatum.isNull (h : value.IsDatum) : value.isNull = false := by
  cases value with
  | null => exact False.elim h
  | bool b => rfl
  | integer n => rfl
  | float x => rfl
  | string text => rfl
  | array items => rfl
  | object members => rfl

/-- The numbers among the data are finite. -/
theorem IsDatum.finite (h : value.IsDatum) {x : Binary64} (hx : value.asBinary64? = some x) :
    ∃ y : Binary64.Finite, x = .finite y := by
  cases value with
  | integer n =>
      obtain ⟨hlow, hhigh⟩ : -2 ^ 63 ≤ n ∧ n < 2 ^ 64 := h
      obtain ⟨y, hy⟩ := Binary64.ofInt_finite (n := n) (by omega)
      exact ⟨y, (Option.some.inj hx).symm.trans hy⟩
  | float y => exact ⟨y, (Option.some.inj hx).symm⟩
  | null => exact nomatch hx
  | bool b => exact nomatch hx
  | string text => exact nomatch hx
  | array items => exact nomatch hx
  | object members => exact nomatch hx

end Json

/-- No end of the clause is an infinity that no number reaches. -/
def Clause.Reachable : Clause → Prop
  | .range least most =>
      (∀ low ∈ least, low ≠ .infinite false) ∧ ∀ high ∈ most, high ≠ .infinite true
  | .above limit => limit ≠ .infinite false
  | .atLeast limit => limit ≠ .infinite false
  | .below limit => limit ≠ .infinite true
  | .atMost limit => limit ≠ .infinite true
  | .equalTo _ => True
  | .exactly _ => True

/-! ## Limits

    A limit bounds from one side.  What is said of lower limits goes for upper ones with the
    comparisons turned around, so each fact is stated once, for a limit on either side. -/

/-- The side that a limit bounds from. -/
inductive Side where
  | lower
  | upper

namespace Side

open Binary64 (le lt)

/-- The other side. -/
def other : Side → Side
  | .lower => .upper
  | .upper => .lower

/-- The number stays within the limit. -/
def keeps : Side → Binary64 → Binary64 → Bool
  | .lower, limit, x => le limit x
  | .upper, limit, x => le x limit

/-- The number stays within the limit and does not meet it. -/
def clears : Side → Binary64 → Binary64 → Bool
  | .lower, limit, x => lt limit x
  | .upper, limit, x => lt x limit

/-- The limit that no number stays within. -/
def barrier : Side → Binary64
  | .lower => .infinite false
  | .upper => .infinite true

/-- The keyword of a limit on a measure. -/
def keyword : Side → Measure → String
  | .lower, measure => (Export.keywords measure).1
  | .upper, measure => (Export.keywords measure).2

/-- The keyword of a limit on the value itself that must not be met. -/
def strictKeyword : Side → String
  | .lower => "exclusiveMinimum"
  | .upper => "exclusiveMaximum"

/-- The clause that keeps a measure clear of a limit. -/
def strict : Side → Binary64 → Clause
  | .lower => .above
  | .upper => .below

/-- The limit on counts that is met by those clear of another one. -/
def next : Side → Binary64 → Binary64
  | .lower, limit => limit.increment
  | .upper, limit => limit.decrement.atLeastZero

end Side

namespace Binary64

/-- Among numbers, one does not exceed another exactly if the other is not below it. -/
theorem le_eq_true_iff {x y : Binary64} (hx : x.isNan = false) (hy : y.isNan = false) :
    le x y = true ↔ lt y x = false :=
  ⟨lt_eq_false_of_le, le_of_not_lt hx hy⟩

/-- Among numbers, one is below another exactly if the other does not reach down to it. -/
theorem lt_eq_true_iff {x y : Binary64} (hx : x.isNan = false) (hy : y.isNan = false) :
    lt x y = true ↔ le y x = false := by
  rw [← Bool.not_eq_true, le_eq_true_iff hy hx, Bool.not_eq_false]

/-- Of equal numbers none is below the other. -/
theorem lt_eq_false_of_eq {x y : Binary64} (h : eq x y = true) : lt x y = false ∧ lt y x = false := by
  cases x with
  | nan => exact absurd h Bool.false_ne_true
  | infinite a =>
      cases y with
      | nan => exact absurd h Bool.false_ne_true
      | finite y => exact absurd h Bool.false_ne_true
      | infinite b =>
          obtain rfl : a = b := eq_of_beq h
          simp [lt]
  | finite x =>
      cases y with
      | nan => exact absurd h Bool.false_ne_true
      | infinite b => exact absurd h Bool.false_ne_true
      | finite y =>
          simp only [eq, decide_eq_true_eq] at h
          simp only [lt, h, Int.lt_irrefl, decide_false, and_self]

theorem eq_of_not_lt {x y : Finite} (hxy : lt (.finite x) (.finite y) = false)
    (hyx : lt (.finite y) (.finite x) = false) : eq (.finite x) (.finite y) = true := by
  simp only [lt, decide_eq_false_iff_not] at hxy hyx
  simp only [eq, decide_eq_true_eq]
  omega

/-- A bound that is kept from falling below zero stays a number. -/
theorem atLeastZero_of (x : Binary64) :
    x.atLeastZero.isNan = false ∧ x.atLeastZero ≠ .infinite true := by
  cases x with
  | nan => exact ⟨rfl, nofun⟩
  | infinite negative =>
      cases negative with
      | true => exact ⟨rfl, nofun⟩
      | false => exact ⟨rfl, nofun⟩
  | finite y =>
      rw [atLeastZero]
      split
      · exact ⟨rfl, nofun⟩
      · exact ⟨rfl, nofun⟩

/-- Doubles of one value compare in the same way. -/
theorem compare_congr {x y : Finite} (h : x.scaled = y.scaled) (z : Binary64) :
    le (.finite x) z = le (.finite y) z ∧ le z (.finite x) = le z (.finite y)
      ∧ lt (.finite x) z = lt (.finite y) z ∧ lt z (.finite x) = lt z (.finite y)
      ∧ eq (.finite x) z = eq (.finite y) z := by
  cases z with
  | nan => exact ⟨rfl, rfl, rfl, rfl, rfl⟩
  | infinite negative => exact ⟨rfl, rfl, rfl, rfl, rfl⟩
  | finite z => simp only [le, lt, eq, h, and_self]

end Binary64

namespace Side

variable {side : Side} {limit x : Binary64}

/-- A limit is kept exactly if it is not passed. -/
theorem keeps_iff (hlimit : limit.isNan = false) (hx : x.isNan = false) :
    side.keeps limit x = true ↔ side.other.clears limit x = false := by
  cases side with
  | lower => exact Binary64.le_eq_true_iff hlimit hx
  | upper => exact Binary64.le_eq_true_iff hx hlimit

/-- To be clear of a limit on one side is not to keep it on the other. -/
theorem clears_iff (hlimit : limit.isNan = false) (hx : x.isNan = false) :
    side.clears limit x = true ↔ side.other.keeps limit x = false := by
  cases side with
  | lower => exact Binary64.lt_eq_true_iff hlimit hx
  | upper => exact Binary64.lt_eq_true_iff hx hlimit

/-- Whether a limit is kept, or cleared, depends on its value alone. -/
theorem keeps_congr {y z : Binary64.Finite} (h : y.scaled = z.scaled) :
    side.keeps (.finite y) x = side.keeps (.finite z) x := by
  cases side with
  | lower => exact (Binary64.compare_congr h x).1
  | upper => exact (Binary64.compare_congr h x).2.1

theorem clears_congr {y z : Binary64.Finite} (h : y.scaled = z.scaled) :
    side.clears (.finite y) x = side.clears (.finite z) x := by
  cases side with
  | lower => exact (Binary64.compare_congr h x).2.2.1
  | upper => exact (Binary64.compare_congr h x).2.2.2.1

/-- A limit that a number clears if it is finite is not met by it, unless nothing stays
    within the limit. -/
theorem keeps_other_eq_false {y : Binary64.Finite} (hnan : limit.isNan = false)
    (hreach : limit ≠ side.barrier)
    (h : ∀ z, limit = .finite z → side.clears limit (.finite y) = true) :
    side.other.keeps limit (.finite y) = false := by
  cases limit with
  | nan => exact nomatch hnan
  | infinite negative =>
      cases side <;> cases negative <;> first | rfl | exact absurd rfl hreach
  | finite z => exact (clears_iff rfl rfl).1 (h z rfl)

/-- A limit that a number keeps if it is finite is not passed by it, unless nothing stays
    within the limit. -/
theorem clears_other_eq_false {y : Binary64.Finite} (hreach : limit ≠ side.barrier)
    (h : ∀ z, limit = .finite z → side.keeps limit (.finite y) = true) :
    side.other.clears limit (.finite y) = false := by
  cases limit with
  | nan => cases side <;> rfl
  | infinite negative =>
      cases side <;> cases negative <;> first | rfl | exact absurd rfl hreach
  | finite z => exact (keeps_iff rfl rfl).1 (h z rfl)

/-! ### Counts -/

/-- A count that is clear of a limit keeps the next one. -/
theorem keeps_next {n : Nat} (hwhole : limit.isIntegral = true)
    (hsign : Binary64.lt limit .zero = false) (h : side.clears limit (.ofNat n) = true) :
    side.keeps (side.next limit) (.ofNat n) = true := by
  cases side with
  | lower => exact Binary64.increment_le_ofNat hwhole hsign h
  | upper => exact Binary64.ofNat_le_decrement hwhole hsign h

/-- A count that doubles tell apart and that keeps the next limit is clear of the limit;
    nothing is below zero, though. -/
theorem clears_of_keeps_next {n : Nat} (hwhole : limit.isIntegral = true)
    (hsign : Binary64.lt limit .zero = false) (hpos : side = .upper → Binary64.lt .zero limit = true)
    (hn : n < 2 ^ 53) (h : side.keeps (side.next limit) (.ofNat n) = true) :
    side.clears limit (.ofNat n) = true := by
  cases side with
  | lower => exact Binary64.lt_ofNat_of_increment hwhole hsign hn h
  | upper => exact Binary64.ofNat_lt_of_decrement hwhole (hpos rfl) hn h

/-- The next limit is a number that counts stay within. -/
theorem next_reachable (side : Side) (hwhole : limit.isIntegral = true)
    (hsign : Binary64.lt limit .zero = false) :
    (side.next limit).isNan = false ∧ side.next limit ≠ side.barrier := by
  cases side with
  | lower =>
      obtain ⟨next, hnext⟩ := Binary64.exists_increment hwhole hsign
      rw [show Side.lower.next limit = limit.increment from rfl, hnext]
      exact ⟨rfl, nofun⟩
  | upper => exact Binary64.atLeastZero_of limit.decrement

end Side

namespace Json

section

variable {measure : Measure} {value : Json} {x : Binary64} {related : Binary64 → Binary64 → Bool}

/-- **A LIMIT IS KEPT AS A KEYWORD** if it is finite, and otherwise there is none. -/
theorem compares_ofNumber
    (hcongr : ∀ y z : Binary64.Finite, y.scaled = z.scaled →
      related (.finite y) x = related (.finite z) x)
    (hx : measure.of? value = some x) (limit : Binary64) :
    compares related measure (ofNumber limit) value = true
      ↔ ∀ y, limit = .finite y → related limit x = true := by
  unfold compares
  rw [hx]
  cases limit with
  | nan => exact ⟨fun _ y hy => (nomatch hy), fun _ => rfl⟩
  | infinite negative => exact ⟨fun _ y hy => (nomatch hy), fun _ => rfl⟩
  | finite y =>
      obtain ⟨z, hz, hscaled⟩ := asBinary64?_ofNumber y
      rw [hz]
      show related (.finite z) x = true ↔ _
      rw [hcongr z y hscaled]
      exact ⟨fun h _ _ => h, fun h => h y rfl⟩

/-- **A LIMIT THAT IS WRITTEN AS A KEYWORD IS COMPARED**, if it is finite; an infinite one is
    written as null and asks for nothing. -/
theorem compares_keeps (side : Side) (hx : measure.of? value = some x) (limit : Binary64) :
    compares side.keeps measure (ofNumber limit) value = true
      ↔ ∀ y, limit = .finite y → side.keeps limit x = true :=
  compares_ofNumber (fun _ _ h => Side.keeps_congr h) hx limit

theorem compares_clears (side : Side) (hx : measure.of? value = some x) (limit : Binary64) :
    compares side.clears measure (ofNumber limit) value = true
      ↔ ∀ y, limit = .finite y → side.clears limit x = true :=
  compares_ofNumber (fun _ _ h => Side.clears_congr h) hx limit

end

/-! ## Choices -/

/-- A number is accepted as a choice by what equals it. -/
theorem accepts_number (limit : Binary64) (value : Json) :
    (Literal.number limit).accepts value
      = (value.asBinary64?.map fun x => Binary64.eq x limit).getD false := by
  cases value with
  | integer n => rw [Literal.accepts, asBinary64?, Option.map_some, Option.getD_some]
  | float y => rw [Literal.accepts, asBinary64?, Option.map_some, Option.getD_some]
  | null => rfl
  | bool b => rfl
  | string text => rfl
  | array items => rfl
  | object members => rfl

/-- Written as a number, a double equals the numbers that it equals. -/
theorem equals_ofNumber (limit : Binary64) {value : Json} (h : value.IsDatum) :
    (ofNumber limit).equals value
      = (value.asBinary64?.map fun x => Binary64.eq x limit).getD false := by
  unfold equals
  cases hv : value.asBinary64? with
  | none =>
      -- null stands for a double that is not finite, and is not among the data
      have hnull : same .null value = false := by
        cases value with
        | null => exact False.elim h
        | bool b => rfl
        | integer n => rfl
        | float x => rfl
        | string text => rfl
        | array items => rfl
        | object members => rfl
      cases limit with
      | nan => exact hnull
      | infinite negative => exact hnull
      | finite y =>
          obtain ⟨z, hz, -⟩ := asBinary64?_ofNumber y
          rw [hz]
          rfl
  | some x =>
      obtain ⟨v, rfl⟩ := h.finite hv
      cases limit with
      | nan => rfl
      | infinite negative => rfl
      | finite y =>
          obtain ⟨z, hz, hscaled⟩ := asBinary64?_ofNumber y
          rw [hz]
          show decide (z.scaled = v.scaled) = decide (v.scaled = y.scaled)
          rw [hscaled]
          exact decide_eq_decide.2 eq_comm

end Json

/-! ## The keywords of a node -/

namespace Export

open Json (keywordAccepts)

/-- Whether all the keywords accept the value. -/
def Allow (keywords : Members Json) (value : Json) : Prop :=
  ∀ keyword ∈ keywords, keywordAccepts keyword value = true

theorem accepts_object_iff (keywords : Members Json) (value : Json) :
    Json.accepts (.object keywords) value = true ↔ Allow keywords value := by
  rw [Json.accepts_object, List.all_eq_true]
  rfl

theorem allow_append {keywords more : Members Json} {value : Json} :
    Allow (keywords ++ more) value ↔ Allow keywords value ∧ Allow more value :=
  List.forall_mem_append

theorem allow_cons {keyword : String × Json} {more : Members Json} {value : Json} :
    Allow (keyword :: more) value ↔ keywordAccepts keyword value = true ∧ Allow more value :=
  List.forall_mem_cons

theorem allow_nil (value : Json) : Allow [] value := fun _ hmem => nomatch hmem

theorem allow_bound {name : String} {limit : Binary64} {value : Json} :
    Allow (bound name limit) value ↔ keywordAccepts (name, .ofNumber limit) value = true :=
  List.forall_mem_singleton

/-- A bound that is not there asks for nothing. -/
theorem allow_bound? {name : String} {limit : Option Binary64} {value : Json} :
    Allow (bound? name limit) value
      ↔ ∀ bound ∈ limit, keywordAccepts (name, .ofNumber bound) value = true := by
  cases limit with
  | none => exact ⟨fun _ _ hmem => (nomatch hmem), fun _ => allow_nil value⟩
  | some bound =>
      rw [show bound? name (some bound) = Export.bound name bound from rfl, allow_bound]
      exact ⟨fun h _ hmem => Option.mem_some.1 hmem ▸ h, fun h => h bound rfl⟩

/-- The keyword of a limit compares what is measured, on the side of the limit. -/
theorem keywordAccepts_keyword (side : Side) (measure : Measure) (argument value : Json) :
    keywordAccepts (side.keyword measure, argument) value
      = Json.compares side.keeps measure argument value := by
  cases side <;> cases measure <;> exact Bool.and_true _

theorem keywordAccepts_strictKeyword (side : Side) (argument value : Json) :
    keywordAccepts (side.strictKeyword, argument) value
      = Json.compares side.clears .value argument value := by
  cases side <;> exact Bool.and_true _

/-! ### Clauses -/

section

open Binary64 (le lt)

variable {measure : Measure} {value : Json} {x limit : Binary64}

/-- A range has no objection exactly if neither of its ends has. -/
theorem check_range_eq_none {least most : Option Binary64} :
    (Clause.range least most).check x = none
      ↔ (∀ low ∈ least, lt x low = false) ∧ ∀ high ∈ most, lt high x = false := by
  have hnone : ∀ (p : Binary64 → Bool) (bound : Option Binary64),
      bound.filter p = none ↔ ∀ b ∈ bound, p b = false := by
    intro p bound
    simp only [Option.filter_eq_none_iff, Bool.not_eq_true, Option.mem_def]
  rw [← hnone (fun low => lt x low), ← hnone (fun high => lt high x)]
  rw [Clause.check]
  split
  · rename_i low hlow
    exact ⟨nofun, fun h => nomatch h.1.symm.trans hlow⟩
  · rename_i hlow
    exact ⟨fun h => ⟨hlow, Option.map_eq_none_iff.1 h⟩, fun h => Option.map_eq_none_iff.2 h.2⟩

/-- A measure other than the value itself is a count. -/
theorem exists_ofNat (hcount : measure ≠ .value) (hx : measure.of? value = some x) :
    ∃ n, x = .ofNat n ∧ (value.IsModest → n < 2 ^ 53) := by
  -- only one kind of value has each count, and it is the length of a list
  cases measure with
  | value => exact absurd rfl hcount
  | length =>
      cases value with
      | string text => exact ⟨text.length, (Option.some.inj hx).symm, id⟩
      | null | bool | integer | float | array | object => exact nomatch hx
  | items =>
      cases value with
      | array items => exact ⟨items.length, (Option.some.inj hx).symm, id⟩
      | null | bool | integer | float | string | object => exact nomatch hx
  | properties =>
      cases value with
      | object members => exact ⟨members.length, (Option.some.inj hx).symm, id⟩
      | null | bool | integer | float | string | array => exact nomatch hx

/-- What is measured is a number. -/
theorem isNan_of_of? (hx : measure.of? value = some x) : x.isNan = false := by
  by_cases hcount : measure = .value
  · subst hcount
    cases value with
    | integer n => exact Option.some.inj hx ▸ Binary64.isNan_ofScaled _ _ _
    | float y => exact Option.some.inj hx ▸ rfl
    | null => exact nomatch hx
    | bool b => exact nomatch hx
    | string text => exact nomatch hx
    | array items => exact nomatch hx
    | object members => exact nomatch hx
  · obtain ⟨n, rfl, -⟩ := exists_ofNat hcount hx
    exact Binary64.isNan_ofScaled _ _ _

/-- A limit that the value does not pass is accepted as a keyword. -/
theorem allow_limit (side : Side) (hx : measure.of? value = some x)
    (h : side.other.clears limit x = false) : Allow (bound (side.keyword measure) limit) value := by
  rw [allow_bound, keywordAccepts_keyword, Json.compares_keeps side hx]
  rintro y rfl
  exact (Side.keeps_iff rfl (isNan_of_of? hx)).2 h

/-- **A RANGE THAT IS KEPT IS ALLOWED**, end by end. -/
theorem allow_range (hx : measure.of? value = some x) {least most : Option Binary64}
    (h : (Clause.range least most).check x = none) :
    Allow (bound? (keywords measure).1 least ++ bound? (keywords measure).2 most) value := by
  obtain ⟨hleast, hmost⟩ := check_range_eq_none.1 h
  rw [allow_append, allow_bound?, allow_bound?]
  refine ⟨?_, ?_⟩
  · intro low hlow
    exact allow_bound.1 (allow_limit .lower hx (hleast low hlow))
  · intro high hhigh
    exact allow_bound.1 (allow_limit .upper hx (hmost high hhigh))

theorem allow_const (hdata : value.IsDatum) (hx : Measure.of? .value value = some x) :
    Allow (bound "const" limit) value ↔ Binary64.eq x limit = true := by
  have hvalue : value.asBinary64? = some x := hx
  rw [allow_bound, Json.keywordAccepts_const, Json.equals_ofNumber limit hdata, hvalue]
  exact Iff.rfl

theorem clause_range (measure : Measure) (least most : Option Binary64) :
    Export.clause measure (.range least most)
      = bound? (keywords measure).1 least ++ bound? (keywords measure).2 most := by
  cases measure <;> rfl

theorem clause_atLeast (measure : Measure) (limit : Binary64) :
    Export.clause measure (.atLeast limit) = bound (keywords measure).1 limit := by
  cases measure <;> rfl

theorem clause_atMost (measure : Measure) (limit : Binary64) :
    Export.clause measure (.atMost limit) = bound (keywords measure).2 limit := by
  cases measure <;> rfl

theorem clause_count (hcount : measure ≠ .value) (clause : Clause) :
    Export.clause measure clause = countClause (keywords measure).1 (keywords measure).2 clause :=
  if_neg hcount

theorem not_of_ite_eq_none {α : Type} {c : Bool} {a : α} (h : (if c = true then some a else none) = none) :
    c = false := by
  cases c with
  | false => rfl
  | true => exact nomatch h

theorem of_ite_eq_none {α : Type} {c : Bool} {a : α} (h : (if c = true then none else some a) = none) :
    c = true := by
  cases c with
  | true => rfl
  | false => exact nomatch h

theorem clause_strict_value (side : Side) (limit : Binary64) :
    Export.clause .value (side.strict limit) = bound side.strictKeyword limit := by
  cases side <;> rfl

theorem clause_strict_count (side : Side) (hcount : measure ≠ .value) (limit : Binary64) :
    Export.clause measure (side.strict limit) = bound (side.keyword measure) (side.next limit) := by
  rw [clause_count hcount]
  cases side <;> rfl

/-- A strict limit that the value is clear of is accepted: a count clear of it keeps the
    next one. -/
theorem allow_strict (side : Side) (hlimit : measure.Admits limit) (hx : measure.of? value = some x)
    (h : side.clears limit x = true) : Allow (Export.clause measure (side.strict limit)) value := by
  by_cases hcount : measure = .value
  · subst hcount
    rw [clause_strict_value, allow_bound, keywordAccepts_strictKeyword, Json.compares_clears side hx]
    exact fun _ _ => h
  · obtain ⟨n, rfl, -⟩ := exists_ofNat hcount hx
    obtain ⟨hwhole, hsign⟩ := (Measure.admits_count hcount).1 hlimit
    rw [clause_strict_count side hcount]
    refine allow_limit side hx ((Side.keeps_iff ?_ (isNan_of_of? hx)).1 (Side.keeps_next hwhole hsign h))
    exact (Side.next_reachable side hwhole hsign).1

/-- **A CLAUSE THAT IS KEPT IS ACCEPTED AS KEYWORDS.** -/
theorem allow_clause_of_check {clause : Clause} (hsuits : clause.Suits measure)
    (hdata : value.IsDatum) (hx : measure.of? value = some x) (h : clause.check x = none) :
    Allow (Export.clause measure clause) value := by
  have hnan := isNan_of_of? hx
  cases clause with
  | range least most =>
      rw [clause_range]
      exact allow_range hx h
  | atLeast limit =>
      rw [clause_atLeast]
      exact allow_limit .lower hx (not_of_ite_eq_none h)
  | atMost limit =>
      rw [clause_atMost]
      exact allow_limit .upper hx (not_of_ite_eq_none h)
  | above limit =>
      exact allow_strict .lower hsuits hx
        ((Side.clears_iff hsuits.isNan hnan).2 (not_of_ite_eq_none h))
  | below limit =>
      exact allow_strict .upper hsuits.1 hx
        ((Side.clears_iff hsuits.1.isNan hnan).2 (not_of_ite_eq_none h))
  | equalTo limit =>
      obtain ⟨rfl, -⟩ := hsuits
      show Allow (bound "const" limit) value
      rw [allow_const hdata hx]
      exact of_ite_eq_none h
  | exactly count =>
      -- an exact count is exported as two limits
      rw [clause_count hsuits.1]
      obtain ⟨hleast, hmost⟩ := Binary64.lt_eq_false_of_eq (of_ite_eq_none h)
      exact allow_append.2 ⟨allow_limit .lower hx hleast, allow_limit .upper hx hmost⟩

/-! ### Clauses from their keywords -/

/-- What is measured of modest data is finite. -/
theorem exists_finite_of_of? (hdata : value.IsDatum) (hmodest : value.IsModest)
    (hx : measure.of? value = some x) : ∃ y : Binary64.Finite, x = .finite y := by
  by_cases hcount : measure = .value
  · subst hcount
    exact hdata.finite hx
  · obtain ⟨n, rfl, hn⟩ := exists_ofNat hcount hx
    exact Binary64.ofNat_finite (Nat.le_of_lt (hn hmodest))

section

variable (hdata : value.IsDatum) (hmodest : value.IsModest) (hx : measure.of? value = some x)

include hdata hmodest hx

/-- A limit that is accepted as a keyword is not passed, unless it was no limit. -/
theorem clears_of_allow (side : Side) (hreach : limit ≠ side.barrier)
    (h : Allow (bound (side.keyword measure) limit) value) : side.other.clears limit x = false := by
  obtain ⟨y, rfl⟩ := exists_finite_of_of? hdata hmodest hx
  rw [allow_bound, keywordAccepts_keyword, Json.compares_keeps side hx] at h
  exact Side.clears_other_eq_false hreach h

/-- A strict limit that is accepted as a keyword is not met, unless it was no limit. -/
theorem keeps_of_allow (side : Side) (hlimit : measure.Admits limit)
    (hpos : side = .upper → measure ≠ .value → lt .zero limit = true) (hreach : limit ≠ side.barrier)
    (h : Allow (Export.clause measure (side.strict limit)) value) :
    side.other.keeps limit x = false := by
  by_cases hcount : measure = .value
  · subst hcount
    obtain ⟨y, rfl⟩ := hdata.finite hx
    rw [clause_strict_value, allow_bound, keywordAccepts_strictKeyword,
      Json.compares_clears side hx] at h
    exact Side.keeps_other_eq_false hlimit.isNan hreach h
  -- a count that keeps the next limit is clear of the limit
  have hnan := isNan_of_of? hx
  obtain ⟨hwhole, hsign⟩ := (Measure.admits_count hcount).1 hlimit
  obtain ⟨hnumber, hnext⟩ := Side.next_reachable side hwhole hsign
  rw [clause_strict_count side hcount] at h
  have hkept := clears_of_allow hdata hmodest hx side hnext h
  obtain ⟨n, rfl, hn⟩ := exists_ofNat hcount hx
  refine (Side.clears_iff hlimit.isNan hnan).1 ?_
  refine Side.clears_of_keeps_next hwhole hsign (fun hside => hpos hside hcount) (hn hmodest) ?_
  exact (Side.keeps_iff hnumber hnan).2 hkept

end

/-- **A CLAUSE THAT IS ACCEPTED AS KEYWORDS IS KEPT**, if its ends are reachable and the
    data modest. -/
theorem check_of_allow_clause {clause : Clause} (hsuits : clause.Suits measure)
    (hreach : clause.Reachable) (hdata : value.IsDatum) (hmodest : value.IsModest)
    (hx : measure.of? value = some x) (h : Allow (Export.clause measure clause) value) :
    clause.check x = none := by
  cases clause with
  | range least most =>
      rw [clause_range, allow_append, allow_bound?, allow_bound?] at h
      rw [check_range_eq_none]
      refine ⟨?_, ?_⟩
      · intro low hlow
        exact clears_of_allow hdata hmodest hx .lower (hreach.1 low hlow) (allow_bound.2 (h.1 low hlow))
      · intro high hhigh
        exact clears_of_allow hdata hmodest hx .upper (hreach.2 high hhigh) (allow_bound.2 (h.2 high hhigh))
  | atLeast limit =>
      rw [clause_atLeast] at h
      have hkept : lt x limit = false := clears_of_allow hdata hmodest hx .lower hreach h
      rw [Clause.check, hkept]
      rfl
  | atMost limit =>
      rw [clause_atMost] at h
      have hkept : lt limit x = false := clears_of_allow hdata hmodest hx .upper hreach h
      rw [Clause.check, hkept]
      rfl
  | above limit =>
      have hclear : le x limit = false :=
        keeps_of_allow hdata hmodest hx .lower hsuits nofun hreach h
      rw [Clause.check, hclear]
      rfl
  | below limit =>
      have hclear : le limit x = false :=
        keeps_of_allow hdata hmodest hx .upper hsuits.1 (fun _ => hsuits.2) hreach h
      rw [Clause.check, hclear]
      rfl
  | equalTo limit =>
      obtain ⟨rfl, -⟩ := hsuits
      have hconst : Allow (bound "const" limit) value := h
      rw [allow_const hdata hx] at hconst
      rw [Clause.check, hconst]
      rfl
  | exactly count =>
      -- an exact count is written as a limit on either side, and keeping both is being the count
      obtain ⟨hcount, hsmall⟩ := hsuits
      obtain ⟨y, rfl⟩ := exists_finite_of_of? hdata hmodest hx
      obtain ⟨z, hz⟩ := Binary64.ofNat_finite_of_unsigned hsmall
      rw [clause_count hcount, countClause, allow_append] at h
      rw [hz] at h
      have hreachable : ∀ side : Side, Binary64.finite z ≠ side.barrier := by
        intro side
        cases side <;> exact nofun
      have hleast : lt (.finite y) (.finite z) = false :=
        clears_of_allow hdata hmodest hx .lower (hreachable .lower) h.1
      have hmost : lt (.finite z) (.finite y) = false :=
        clears_of_allow hdata hmodest hx .upper (hreachable .upper) h.2
      rw [Clause.check, hz, Binary64.eq_of_not_lt hleast hmost]
      rfl

end

end Export

end Conform

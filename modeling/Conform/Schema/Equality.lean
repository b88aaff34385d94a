import Conform.Schema.Node

/-! # Equality of nodes

    Two nodes are the same when they agree in form, checks and wording, part by
    part.  The order of named parts does not matter, the order of union members
    and chain entries does.  Patterns are compared by their text; predicates
    and custom checks by identity, so two made separately differ. -/

namespace Conform

/-- Equality of optional values under a given equality. -/
def sameOption {α : Type} (same : α → α → Bool) : Option α → Option α → Bool
  | none, none => true
  | some a, some b => same a b
  | _, _ => false

/-- Identity of custom checks, in order. -/
def sameCustoms (a b : List Custom) : Bool :=
  a.map (fun c => (c.serial, c.isSuspended)) == b.map fun c => (c.serial, c.isSuspended)

/-- Equality of tables of texts, whatever their order. -/
def sameTexts (a b : Members String) : Bool :=
  a.length == b.length && a.all fun entry => Members.valueOf? b entry.1 == some entry.2

/-- Equality of checks and wording. -/
def Facets.same (a b : Facets) : Bool :=
  a.required == b.required
    && sameOption Clause.same a.clause b.clause
    && Literal.sameAll a.choices b.choices
    && sameOption (fun p q => p.source == q.source) a.pattern b.pattern
    && a.label == b.label
    && a.description == b.description
    && sameTexts a.messages b.messages
    && sameCustoms a.customs b.customs

/-- Equality of conditions. -/
def Chain.Condition.same (a b : Chain.Condition) : Bool :=
  a.join == b.join && a.predicate.serial == b.predicate.serial && a.message == b.message

/-- Equality of lists of conditions. -/
def sameConditions : List Chain.Condition → List Chain.Condition → Bool
  | [], [] => true
  | a :: as, b :: bs => a.same b && sameConditions as bs
  | _, _ => false

namespace Node

mutual

/-- Equality of nodes. -/
def same : Node → Node → Bool
  | .leaf s a, .leaf t b => s == t && a.same b
  | .object a fields, .object b others =>
      a.same b && fields.length == others.length && sameFields fields others
  | .array a items, .array b others =>
      a.same b
        && match items, others with
          | none, none => true
          | some x, some y => same x y
          | _, _ => false
  | .union a members, .union b others => a.same b && sameMembers members others
  | .matching a r cases, .matching b s others =>
      a.same b && r == s && cases.length == others.length && sameFields cases others
  | .switch a f yes no, .switch b g yes2 no2 =>
      a.same b && f == g && same yes yes2
        && match no, no2 with
          | none, none => true
          | some x, some y => same x y
          | _, _ => false
  | .chain a ⟨entries, fallback⟩, .chain b ⟨others, fallback2⟩ =>
      a.same b && sameEntries entries others
        && match fallback, fallback2 with
          | .undefined, .undefined => true
          | .nothing, .nothing => true
          | .target x, .target y => same x y
          | _, _ => false
  | _, _ => false
termination_by structural node => node

/-- Whether every field has an equal one of its name in `others`. -/
def sameFields : List (String × Node) → List (String × Node) → Bool
  | [], _ => true
  | (name, node) :: rest, others =>
      (match Members.valueOf? others name with
        | some other => same node other
        | none => false) && sameFields rest others
termination_by structural fields => fields

/-- Equality member by member. -/
def sameMembers : List Node → List Node → Bool
  | [], [] => true
  | a :: as, b :: bs => same a b && sameMembers as bs
  | _, _ => false
termination_by structural members => members

/-- Equality entry by entry. -/
def sameEntries : List (Chain.Entry Node) → List (Chain.Entry Node) → Bool
  | [], [] => true
  | ⟨k, conditions, target, m, t⟩ :: as, ⟨k2, conditions2, target2, m2, t2⟩ :: bs =>
      k == k2 && sameConditions conditions conditions2 && m == m2 && t == t2
        && (match target, target2 with
          | none, none => true
          | some x, some y => same x y
          | _, _ => false)
        && sameEntries as bs
  | _, _ => false
termination_by structural entries => entries

end

end Node

end Conform

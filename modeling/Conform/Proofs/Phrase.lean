import Conform.Proofs.Choices
import Conform.Proofs.Clauses
import Conform.Schema.Node

/-! # Phrases — the specification language as a grammar

    A phrase is a specification as it is written without blanks, over the built-in
    names: a name, a name with a clause, choices, an array, a union, each perhaps
    with a final mark.  It has a text and it denotes a tree; neither asks how texts
    are read.  In a well-formed phrase every clause suits what it bounds, choices
    are of the type they are said to be, and the members of a union are neither
    choices nor unions themselves, unless in brackets, and do not end in the mark
    that would be the union's. -/

namespace Conform.Dsl

open Conform.Text

/-! ## Names -/

/-- A built-in name of a type. -/
structure TypeName where
  text : String
  base : BaseType
  builtin : (text, base) ∈ BaseType.builtin

/-- A name of a type of choices. -/
structure ChoiceName where
  text : String
  type : ChoiceType
  named : ChoiceType.ofName? text = some type

/-- What stands before choices: nothing, a name of their type, or `enum`, perhaps with
    a type of choices. -/
inductive Lead where
  | nothing
  | typed (name : TypeName)
  | keyword (hint : Option ChoiceName)

/-! ## Phrases -/

/-- A specification as it is written; `mark` says whether it ends with `!`. -/
inductive Phrase where
  | named (mark : Bool) (name : TypeName)
  | bounded (mark : Bool) (name : TypeName) (clause : WrittenClause)
  | listed (mark : Bool) (lead : Lead) (choices : WrittenChoices)
  | array (mark : Bool) (clause : Option WrittenClause) (items : Option Phrase)
  | union (mark : Bool) (members : List Phrase)

/-- The keyword of arrays. -/
def arrayLead : Chars := ['a', 'r', 'r', 'a', 'y']

/-- The keyword of unions, with its colon. -/
def unionLead : Chars := ['t', 'y', 'p', 'e', 's', ':']

/-- The keyword of choices, with its colon. -/
def choiceLead : Chars := ['e', 'n', 'u', 'm', ':']

/-- The text of a lead. -/
def Lead.text : Lead → Chars
  | .nothing => []
  | .typed name => name.text.toList ++ [':']
  | .keyword none => choiceLead
  | .keyword (some hint) => choiceLead ++ hint.text.toList ++ [':']

/-- The text of the clause of an array. -/
def clauseText : Option WrittenClause → Chars
  | none => []
  | some clause => ':' :: clause.text

/-- The text of a mark. -/
def markText (mark : Bool) : Chars := if mark then ['!'] else []

namespace Phrase

/-- Whether the phrase ends with `!`. -/
def mark : Phrase → Bool
  | .named mark _ => mark
  | .bounded mark _ _ => mark
  | .listed mark _ _ => mark
  | .array mark _ _ => mark
  | .union mark _ => mark

/-- Whether the phrase has bars outside of brackets. -/
def hasBars : Phrase → Bool
  | .listed _ _ _ => true
  | .union _ _ => true
  | _ => false

mutual

/-- The text of the phrase without its mark. -/
def body : Phrase → Chars
  | .named _ name => name.text.toList
  | .bounded _ name clause => name.text.toList ++ ':' :: clause.text
  | .listed _ lead choices => lead.text ++ separated '|' choices.texts
  | .array _ clause none => arrayLead ++ clauseText clause
  | .array _ clause (some items) =>
      arrayLead ++ clauseText clause ++ '<' :: (body items ++ markText items.mark ++ ['>'])
  | .union _ members => unionLead ++ separated '|' (memberTexts members)
termination_by structural phrase => phrase

/-- The texts of the members of a union. -/
def memberTexts : List Phrase → List Chars
  | [] => []
  | phrase :: rest => (body phrase ++ markText phrase.mark) :: memberTexts rest
termination_by structural members => members

end

/-- The text of the phrase. -/
def text (phrase : Phrase) : Chars := phrase.body ++ markText phrase.mark

end Phrase

/-! ## What phrases denote -/

/-- The node of a type with facets of its own. -/
def nodeOf (base : BaseType) (facets : Facets) : Node := (Node.ofType base).mapFacets fun _ => facets

/-- The type of choices after the lead. -/
def Lead.type (choices : WrittenChoices) : Lead → ChoiceType
  | .keyword (some hint) => hint.type
  | _ => choices.ownType

namespace Phrase

mutual

/-- The tree that the phrase denotes. -/
def node : Phrase → Node
  | .named mark name => nodeOf name.base { required := mark }
  | .bounded mark name clause =>
      nodeOf name.base
        { required := mark, clause := name.base.measure?.map fun measure => clause.clause measure }
  | .listed mark (.typed name) choices =>
      nodeOf name.base { required := mark, choices := choices.literals }
  | .listed mark lead choices =>
      .leaf (lead.type choices).primitive { required := mark, choices := choices.literals }
  | .array mark clause none =>
      .array { required := mark, clause := clause.map fun clause => clause.clause .items } none
  | .array mark clause (some items) =>
      .array { required := mark, clause := clause.map fun clause => clause.clause .items }
        (some (node items))
  | .union mark members => .union { required := mark } (nodes members)
termination_by structural phrase => phrase

/-- The trees that the members of a union denote. -/
def nodes : List Phrase → List Node
  | [] => []
  | phrase :: rest => node phrase :: nodes rest
termination_by structural members => members

end

end Phrase

/-! ## Well-formed phrases -/

/-- Whether the choices are of the type that the lead says, or show their type if it says
    none. -/
def Lead.Admits (choices : WrittenChoices) : Lead → Prop
  | .nothing => choices.ShowType
  | .typed name => ∃ type, ChoiceType.ofBase? name.base = some type ∧ choices.Are type
  | .keyword none => choices.ShowType
  | .keyword (some hint) => choices.Are hint.type

namespace Phrase

mutual

/-- Whether the phrase is well formed.  The array without clause and items is one of
    the arrays, not a name. -/
def WellFormed : Phrase → Prop
  | .named _ name => name.base ≠ .array
  | .bounded _ name clause =>
      name.base ≠ .array ∧ ∃ measure, name.base.measure? = some measure ∧ clause.Suits measure
  | .listed _ lead choices => choices.WellFormed ∧ lead.Admits choices
  | .array _ clause none => ∀ written ∈ clause, written.Suits .items
  | .array _ clause (some items) => (∀ written ∈ clause, written.Suits .items) ∧ WellFormed items
  | .union _ members =>
      2 ≤ members.length ∧ (∀ member ∈ members, member.hasBars = false)
        ∧ (∀ last ∈ members.getLast?, last.mark = false) ∧ AllWellFormed members
termination_by structural phrase => phrase

/-- Whether all the phrases are well formed. -/
def AllWellFormed : List Phrase → Prop
  | [] => True
  | phrase :: rest => WellFormed phrase ∧ AllWellFormed rest
termination_by structural members => members

end

/-! ## Lists of phrases -/

/-- Members are written one by one. -/
theorem memberTexts_eq_map (members : List Phrase) : memberTexts members = members.map text := by
  induction members with
  | nil => rfl
  | cons phrase rest ih =>
      show phrase.text :: memberTexts rest = _
      rw [ih]
      rfl

/-- All members have to be well formed. -/
theorem allWellFormed_iff (members : List Phrase) :
    AllWellFormed members ↔ ∀ member ∈ members, member.WellFormed := by
  induction members with
  | nil => exact ⟨fun _ _ h => (nomatch h), fun _ => trivial⟩
  | cons phrase rest ih =>
      rw [List.forall_mem_cons, ← ih]
      exact Iff.rfl

/-- **INDUCTION OVER PHRASES**: arrays and unions may use what holds of the phrases in
    them. -/
@[elab_as_elim]
theorem induction {P : Phrase → Prop} (named : ∀ mark name, P (.named mark name))
    (bounded : ∀ mark name clause, P (.bounded mark name clause))
    (listed : ∀ mark lead choices, P (.listed mark lead choices))
    (array : ∀ mark clause items, (∀ phrase ∈ items, P phrase) → P (.array mark clause items))
    (union : ∀ mark members, (∀ phrase ∈ members, P phrase) → P (.union mark members)) :
    ∀ phrase, P phrase
  | .named mark name => named mark name
  | .bounded mark name clause => bounded mark name clause
  | .listed mark lead choices => listed mark lead choices
  | .array mark clause none => array mark clause none fun _ h => nomatch h
  | .array mark clause (some items) =>
      array mark clause (some items) fun phrase hmem => by
        obtain rfl : items = phrase := Option.some.inj hmem
        exact induction named bounded listed array union items
  | .union mark members =>
      union mark members fun phrase hmem =>
        have := List.sizeOf_lt_of_mem hmem
        induction named bounded listed array union phrase
termination_by phrase => sizeOf phrase

end Phrase

/-! ## Names in texts -/

namespace TypeName

variable (name : TypeName)

theorem ofName?_text : BaseType.ofName? name.text = some name.base := by
  have htable : ∀ entry ∈ BaseType.builtin, BaseType.ofName? entry.1 = some entry.2 := by decide
  exact htable _ name.builtin

theorem text_ne_nil : name.text.toList ≠ [] := by
  have htable : ∀ entry ∈ BaseType.builtin, entry.1.toList ≠ [] := by decide
  exact htable _ name.builtin

theorem isBare_of_mem_text : ∀ c ∈ name.text.toList, isBare c = true := by
  have htable : ∀ entry ∈ BaseType.builtin, entry.1.toList.all isBare = true := by decide
  exact List.all_eq_true.1 (htable _ name.builtin)

/-- The name of a type is no keyword. -/
theorem text_ne {keyword : String} (h : BaseType.ofName? keyword = none) : name.text ≠ keyword := by
  intro htext
  have hbase := ofName?_text name
  rw [htext, h] at hbase
  exact nomatch hbase

/-- No other name starts as the keyword of arrays does, whatever follows it. -/
theorem afterLead?_arrayLead (h : name.base ≠ .array) (rest : Chars) :
    afterLead? arrayLead (name.text.toList ++ rest) = none := by
  have htable : ∀ entry ∈ BaseType.builtin, entry.2 ≠ .array →
      ['a', 'r'].length ≤ entry.1.toList.length
        ∧ afterLead? ['a', 'r'] entry.1.toList = none := by decide
  obtain ⟨hlength, hlead⟩ := htable _ name.builtin h
  exact afterLead?_append_eq_none ['r', 'a', 'y'] rest hlength hlead

end TypeName

namespace ChoiceName

variable (name : ChoiceName)

theorem bare_text : name.text.toList ≠ [] ∧ ∀ c ∈ name.text.toList, isBare c = true := by
  have htable : name.text.toList ≠ [] ∧ name.text.toList.all isBare = true := by
    refine (?_ : ∀ entry ∈ _, entry.1.toList ≠ [] ∧ entry.1.toList.all isBare = true) _
      (Members.mem_of_valueOf?_eq_some name.named)
    decide
  exact ⟨htable.1, List.all_eq_true.1 htable.2⟩

end ChoiceName

end Conform.Dsl

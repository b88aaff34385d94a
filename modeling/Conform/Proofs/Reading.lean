import Conform.Proofs.Forms
import Conform.Proofs.Transparency

/-! # Reading — the text of a phrase compiles to the tree that the phrase denotes

    Outlines are made of forms level by level, and trees of outlines likewise; so
    what is read from the text of a phrase is followed by induction over the phrase.
    Each way of writing has the form of `Forms`, and what it needs of the phrases
    inside is that reading gives their trees back.  No name is looked up in the
    registry, so the tree depends on the text alone. -/

namespace Conform.Dsl

open Conform.Text

variable {path : String}

/-! ## Nodes of types -/

theorem ofType_eq_nodeOf (base : BaseType) : Node.ofType base = nodeOf base {} := by
  cases base <;> rfl

/-- Changing the facets of the node of a type changes nothing else. -/
theorem mapFacets_nodeOf (f : Facets → Facets) (base : BaseType) (facets : Facets) :
    (nodeOf base facets).mapFacets f = nodeOf base (f facets) := by
  cases base <;> rfl

theorem base_nodeOf (base : BaseType) (facets : Facets) : (nodeOf base facets).base = base := by
  cases base <;> rfl

/-- The name of a type is resolved to its node, if nothing is registered. -/
theorem TypeName.resolve_text (name : TypeName) :
    resolve path name.text.toList = pure (nodeOf name.base {}) := by
  unfold resolve
  rw [String.ofList_toList, name.ofName?_text, ← ofType_eq_nodeOf]

/-- A constraint without bars is a clause. -/
theorem constrain_of_isPlain {name body : Chars} {base : BaseType} {measure : Measure}
    {written : WrittenClause} (hmeasure : base.measure? = some measure) (h : written.IsPlain) :
    constrain name body written.text (nodeOf base {})
      = (clauseOf measure written.text).map fun clause => nodeOf base { clause := some clause } := by
  have hbar : ¬(written.text.any (· == '|')) = true := by
    rw [List.any_eq_true]
    rintro ⟨c, hc, hbar⟩
    obtain rfl := beq_iff_eq.1 hbar
    exact WrittenClause.bar_not_mem_text h hc
  unfold constrain
  rw [if_neg hbar, base_nodeOf, hmeasure]
  dsimp only
  cases clauseOf measure written.text with
  | error fault => rfl
  | ok clause =>
      show Except.ok ((nodeOf base {}).mapFacets _) = _
      rw [mapFacets_nodeOf]
      rfl

/-- **A CLAUSE THAT SUITS CONSTRAINS THE NODE**, by the bounds that it writes. -/
theorem constrain_clause {name body : Chars} {base : BaseType} {measure : Measure}
    {written : WrittenClause} (hmeasure : base.measure? = some measure)
    (h : written.Suits measure) :
    constrain name body written.text (nodeOf base {})
      = .ok (nodeOf base { clause := some (written.clause measure) }) := by
  rw [constrain_of_isPlain hmeasure h.isPlain, WrittenClause.clauseOf_text h]
  rfl

/-- **CHOICES OF THE RIGHT TYPE CONSTRAIN THE NODE**, to the literals that they write. -/
theorem constrain_choices {name body : Chars} {base : BaseType} {type : ChoiceType}
    {choices : WrittenChoices} (htype : ChoiceType.ofBase? base = some type)
    (h : choices.WellFormed) (hare : choices.Are type) :
    constrain name body (separated '|' choices.texts) (nodeOf base {})
      = .ok (nodeOf base { choices := choices.literals }) := by
  have hbar : ((separated '|' choices.texts).any (· == '|')) = true :=
    List.any_eq_true.2 ⟨'|', mem_separated (choices.length_texts h), rfl⟩
  unfold constrain
  rw [if_pos hbar, base_nodeOf, htype]
  dsimp only
  rw [choices.choicesOf_texts_hinted h hare]
  show Except.ok ((nodeOf base {}).mapFacets _) = _
  rw [mapFacets_nodeOf]

/-! ## Trees -/

theorem settle_ok {α : Type} (value : α) : settle path (.ok value) = pure value := rfl

/-- What is read from a bounded outline once its constraint is known. -/
theorem node_bounded (mark : Bool) (name : TypeName) {body rest : Chars} {facets : Facets}
    (h : constrain name.text.toList body rest (nodeOf name.base {}) = .ok (nodeOf name.base facets)) :
    (Outline.bounded mark name.text.toList body rest).node path
      = pure (nodeOf name.base { facets with required := mark }) := by
  rw [Outline.node, name.resolve_text, pure_bind, h, settle_ok, pure_bind, Node.withRequired,
    mapFacets_nodeOf]

theorem node_choice (mark : Bool) {hint : Option ChoiceType} {type : ChoiceType} {body : Chars}
    {choices : List Literal} (h : choicesOf hint body = .ok (type, choices)) :
    (Outline.choice mark hint body).node path
      = pure (.leaf type.primitive { required := mark, choices := choices }) := by
  rw [Outline.node, h, settle_ok, pure_bind]

/-- The clause of an array bounds the number of its items. -/
theorem arrayClause_map {clause : Option WrittenClause}
    (h : ∀ written ∈ clause, written.Suits .items) :
    arrayClause (clause.map WrittenClause.text)
      = .ok (clause.map fun written => written.clause .items) := by
  cases clause with
  | none => rfl
  | some written =>
      show (some <$> clauseOf .items written.text) = _
      rw [WrittenClause.clauseOf_text (h written rfl)]
      rfl

namespace Phrase

/-- Whether reading the text of the phrase gives its tree, wherever it is read. -/
def IsRead (phrase : Phrase) : Prop :=
  ∀ path, (Outline.ofText phrase.text).node path = pure phrase.node

/-- A name is read as it is meant. -/
theorem isRead_named {mark : Bool} {name : TypeName} (h : (named mark name).WellFormed) :
    (named mark name).IsRead := by
  intro path
  have houtline : Outline.ofText (named mark name).text = .named mark name.text.toList :=
    ofText_text h rfl (name.formOf_text h)
  rw [houtline, Outline.node, name.resolve_text, pure_bind, Node.withRequired, mapFacets_nodeOf]
  rfl

/-- A type with a clause is read as it is meant. -/
theorem isRead_bounded {mark : Bool} {name : TypeName} {clause : WrittenClause}
    (h : (bounded mark name clause).WellFormed) : (bounded mark name clause).IsRead := by
  intro path
  obtain ⟨hbase, measure, hmeasure, hsuits⟩ := id h
  have hform := name.formOf_append hbase (clause.unblank_text hsuits.isPlain)
    (clause.text_ne_nil hsuits.isPlain)
  have houtline : Outline.ofText (bounded mark name clause).text
      = .bounded mark name.text.toList _ clause.text := ofText_text h rfl hform
  rw [houtline, node_bounded _ _ (constrain_clause hmeasure hsuits), node, hmeasure]
  rfl

/-! ### Choices -/

section

variable {mark : Bool} {choices : WrittenChoices}

/-- A type with choices is read as it is meant. -/
theorem isRead_typed {name : TypeName} (h : (listed mark (.typed name) choices).WellFormed) :
    (listed mark (.typed name) choices).IsRead := by
  intro path
  obtain ⟨hchoices, type, htype, hare⟩ := id h
  have hbase : name.base ≠ .array := by
    intro harray
    rw [harray] at htype
    exact nomatch htype
  have hform := name.formOf_append hbase (choices.unblank_texts hchoices) (choices.separated_ne_nil hchoices)
  have houtline : Outline.ofText (listed mark (.typed name) choices).text
      = .bounded mark name.text.toList _ (separated '|' choices.texts) :=
    ofText_text h (List.append_assoc _ _ _) hform
  rw [houtline, node_bounded _ _ (constrain_choices htype hchoices hare)]
  rfl

/-- Choices alone are read as they are meant, if they show their type. -/
theorem isRead_plain (h : (listed mark .nothing choices).WellFormed) :
    (listed mark .nothing choices).IsRead := by
  intro path
  obtain ⟨hchoices, hshow⟩ := id h
  have hform := formOf_choices (choices.unblank_texts hchoices)
    (mem_separated (choices.length_texts hchoices)) (choices.ne_of_mem_separated hchoices)
  have houtline : Outline.ofText (listed mark .nothing choices).text
      = .choice mark none (separated '|' choices.texts) := ofText_text h rfl hform
  rw [houtline, node_choice _ (choices.choicesOf_texts_own hchoices hshow)]
  rfl

/-- Choices after the keyword are read as they are meant. -/
theorem isRead_keyword (h : (listed mark (.keyword none) choices).WellFormed) :
    (listed mark (.keyword none) choices).IsRead := by
  intro path
  obtain ⟨hchoices, hshow⟩ := id h
  -- without a colon nothing can be taken for a type of choices
  have hcolon : ':' ∉ separated '|' choices.texts := fun hmem =>
    (choices.ne_of_mem_separated hchoices ':' hmem).1 rfl
  have hform := formOf_choiceLead (choices.unblank_texts hchoices) (choices.separated_ne_nil hchoices)
  have houtline : Outline.ofText (listed mark (.keyword none) choices).text
      = .choice mark none (separated '|' choices.texts) :=
    ofText_text h rfl (hform.trans (enumForm_of_not_mem _ hcolon))
  rw [houtline, node_choice _ (choices.choicesOf_texts_own hchoices hshow)]
  rfl

/-- Choices with a hint are read as they are meant, under the hint. -/
theorem isRead_hinted {hint : ChoiceName} (h : (listed mark (.keyword (some hint)) choices).WellFormed) :
    (listed mark (.keyword (some hint)) choices).IsRead := by
  intro path
  obtain ⟨hchoices, hare⟩ := id h
  have hbody : (listed mark (.keyword (some hint)) choices).body
      = choiceLead ++ (hint.text.toList ++ ':' :: separated '|' choices.texts) := by
    show ((choiceLead ++ hint.text.toList) ++ [':']) ++ separated '|' choices.texts = _
    rw [List.append_assoc, List.append_assoc]
    rfl
  have hblank : Unblank (hint.text.toList ++ ':' :: separated '|' choices.texts) :=
    .append (unblank_of_isBare hint.bare_text.2) (.cons (by decide) (choices.unblank_texts hchoices))
  have hform := formOf_choiceLead hblank (List.append_ne_nil_of_right_ne_nil _ nofun)
  have houtline : Outline.ofText (listed mark (.keyword (some hint)) choices).text
      = .choice mark (some hint.type) (separated '|' choices.texts) :=
    ofText_text h hbody (hform.trans (enumForm_append _ hint _))
  rw [houtline, node_choice _ (choices.choicesOf_texts_hinted hchoices hare)]
  rfl

end

/-! ### Arrays and unions -/

/-- **AN ARRAY IS READ AS IT IS MEANT** if its items are. -/
theorem isRead_array {mark : Bool} {clause : Option WrittenClause} {items : Option Phrase}
    (h : (array mark clause items).WellFormed) (hitems : ∀ phrase ∈ items, phrase.IsRead) :
    (array mark clause items).IsRead := by
  intro path
  cases items with
  | none =>
      obtain ⟨hsize, hform⟩ := formOf_arrayLead (arrayForm?_clauseText h)
      have houtline : Outline.ofText (array mark clause none).text
          = .array mark (clause.map WrittenClause.text) none := ofText_text h rfl hform
      rw [houtline, Outline.node, arrayClause_map h, settle_ok, pure_bind]
      rfl
  | some items =>
      obtain ⟨hclause, -⟩ := id h
      obtain ⟨hinside, harray⟩ := arrayForm?_clauseText_items hclause items.text
      obtain ⟨hsize, hform⟩ := formOf_arrayLead harray
      have houtline : Outline.ofText (array mark clause (some items)).text
          = .array mark (clause.map WrittenClause.text) (some (Outline.ofText items.text)) :=
        ofText_text h (List.append_assoc _ _ _) hform
      rw [houtline, Outline.node, hitems items rfl, pure_bind, arrayClause_map hclause, settle_ok,
        pure_bind]
      rfl

/-- Members that are each read are read one after the other. -/
theorem nodes_ofText {members : List Phrase} (h : ∀ member ∈ members, member.IsRead) (path : String) :
    Outline.nodes path (members.map fun member => Outline.ofText member.text)
      = pure (nodes members) := by
  induction members with
  | nil => rfl
  | cons member rest ih =>
      have hmember := h member List.mem_cons_self path
      have hrest := ih fun other hmem => h other (List.mem_cons_of_mem _ hmem)
      rw [List.map_cons, Outline.nodes, hmember, pure_bind, hrest, pure_bind]
      rfl

/-- **A UNION IS READ AS IT IS MEANT** if its members are. -/
theorem isRead_union {mark : Bool} {members : List Phrase} (h : (union mark members).WellFormed)
    (hmembers : ∀ member ∈ members, member.IsRead) : (union mark members).IsRead := by
  intro path
  obtain ⟨hlength, hbars, -, hall⟩ := id h
  have hall := (allWellFormed_iff members).1 hall
  have hne : members ≠ [] := List.ne_nil_of_length_pos (Nat.lt_of_succ_lt hlength)
  have hbody : (union mark members).body = unionLead ++ separated '|' (members.map text) := by
    rw [← memberTexts_eq_map]
    rfl
  have hblank : ∀ piece ∈ members.map text, Unblank piece := by
    intro piece hmem
    obtain ⟨member, hmember, rfl⟩ := List.mem_map.1 hmem
    exact unblank_text member (hall member hmember)
  obtain ⟨parts, hsize, hform, hparts⟩ := formOf_unionLead
    (Nat.le_trans hlength (Nat.le_of_eq (List.length_map text).symm)) hblank (members_texts hne hall hbars)
  -- the parts of the form are the texts of the members, so their outlines are, too
  have houtlines : parts.map (fun part => Outline.ofText part.1)
      = members.map fun member => Outline.ofText member.text :=
    calc parts.map (fun part => Outline.ofText part.1)
        = (parts.map Subtype.val).map Outline.ofText := List.map_map.symm
      _ = (members.map text).map Outline.ofText := congrArg _ hparts
      _ = members.map fun member => Outline.ofText member.text := List.map_map
  have houtline : Outline.ofText (union mark members).text
      = .union mark (parts.map fun part => Outline.ofText part.1) :=
    (ofText_text h hbody hform).trans (Form.outline_widen _ _ _ _)
  rw [houtline, houtlines, Outline.node, nodes_ofText hmembers, pure_bind]
  rfl

/-- **A WELL-FORMED PHRASE IS READ.** -/
theorem isRead (phrase : Phrase) : phrase.WellFormed → phrase.IsRead := by
  induction phrase using Phrase.induction with
  | named mark name => exact isRead_named
  | bounded mark name clause => exact isRead_bounded
  | listed mark lead choices =>
      intro h
      cases lead with
      | nothing => exact isRead_plain h
      | typed name => exact isRead_typed h
      | keyword hint =>
          cases hint with
          | none => exact isRead_keyword h
          | some name => exact isRead_hinted h
  | array mark clause items ih =>
      intro h
      refine isRead_array h fun phrase hmem => ih phrase hmem ?_
      obtain rfl := Option.mem_def.1 hmem
      exact h.2
  | union mark members ih =>
      intro h
      obtain ⟨-, -, -, hall⟩ := id h
      exact isRead_union h fun member hmem =>
        ih member hmem ((allWellFormed_iff members).1 hall member hmem)

/-- The text denotes the tree by itself: no name in it asks the registry. -/
theorem denotesAlone (phrase : Phrase) (h : phrase.WellFormed) :
    DenotesAlone (String.ofList phrase.text) phrase.node := by
  intro path names
  unfold read
  rw [String.toList_ofList, phrase.isRead h path]
  rfl

end Phrase

end Conform.Dsl

namespace Conform.Compiler

end Conform.Compiler

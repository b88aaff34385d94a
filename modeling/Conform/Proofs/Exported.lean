import Conform.Validation.Own
import Conform.Proofs.Limits

/-! # Exported checks — a node's own checks as keywords

    A node's base type, choices, clause and pattern are checked by the node itself
    and written as keywords.  What keeps the checks is accepted by the keywords
    (`allow_own`); what the keywords accept keeps the checks, as long as no keyword was
    replaced or left without a number (`kept_of_allow_own`). -/

namespace Conform

/-- The pattern that a type is exported as, if it is a format without a name. -/
def BaseType.exportedPattern? : BaseType → Option String
  | .primitive (.format format) => format.exportedPattern?
  | _ => none

/-- The pattern is what its text reads as. -/
def Pattern.IsRead (pattern : Pattern) : Prop := Regex.ofText? pattern.source = some pattern.regex

namespace Facets

/-- No check is lost among the keywords: the ends of the clause are reachable, and the
    pattern takes the place of no other. -/
structure ExportedWhole (facets : Facets) (base : BaseType) : Prop where
  clause : ∀ clause ∈ facets.clause, clause.Reachable
  pattern : facets.pattern = none ∨ base.exportedPattern? = none

end Facets

namespace Json

/-- **A LITERAL WRITTEN AS A VALUE EQUALS WHAT IT ACCEPTS.** -/
theorem equals_toJson (literal : Literal) {value : Json} (h : value.IsDatum) :
    literal.toJson.equals value = literal.accepts value := by
  cases literal with
  | string text => cases value <;> rfl
  | boolean b => cases value <;> rfl
  | number limit => rw [accepts_number, ← equals_ofNumber limit h, Literal.toJson]

end Json

namespace Export

open Json (keywordAccepts)

/-! ### Types -/

theorem ofExported?_of_eq {format : Format} {name : String} (h : format.exportedFormat? = some name) :
    Format.ofExported? name = some format := by
  cases format <;> simp only [Format.exportedFormat?, Option.some.injEq, reduceCtorEq] at h <;>
    subst h <;> rfl

/-- A format that is exported as a pattern is defined by that pattern, which can be
    read. -/
theorem read_exportedPattern? {format : Format} {source : String}
    (h : format.exportedPattern? = some source) :
    (Regex.ofText? source).isSome = true ∧ format.pattern? = Regex.ofText? source
      ∧ ∀ text, format.accepts text = format.matchesPattern text := by
  cases format with
  | slug =>
      obtain rfl : Format.slugText = source := Option.some.inj h
      exact ⟨by decide +kernel, by rw [Format.pattern?], fun _ => by rw [Format.accepts] <;> nofun⟩
  | alphanum =>
      obtain rfl : Format.alphanumText = source := Option.some.inj h
      exact ⟨by decide +kernel, by rw [Format.pattern?], fun _ => by rw [Format.accepts] <;> nofun⟩
  | hexColor =>
      obtain rfl : Format.hexColorText = source := Option.some.inj h
      exact ⟨by decide +kernel, by rw [Format.pattern?], fun _ => by rw [Format.accepts] <;> nofun⟩
  | objectId =>
      obtain rfl : Format.objectIdText = source := Option.some.inj h
      exact ⟨by decide +kernel, by rw [Format.pattern?], fun _ => by rw [Format.accepts] <;> nofun⟩
  | email => exact nomatch h
  | url => exact nomatch h
  | uuid => exact nomatch h
  | date => exact nomatch h
  | dateTime => exact nomatch h
  | time => exact nomatch h
  | ipv4 => exact nomatch h
  | ipv6 => exact nomatch h
  | hostname => exact nomatch h

/-- An exported pattern accepts the texts that the format accepts. -/
theorem accepts_of_exportedPattern? {format : Format} {source : String}
    (h : format.exportedPattern? = some source) :
    ∃ regex, Regex.ofText? source = some regex ∧ ∀ text, format.accepts text = regex.accepts text := by
  obtain ⟨hsome, hread, haccepts⟩ := read_exportedPattern? h
  obtain ⟨regex, hregex⟩ := Option.isSome_iff_exists.1 hsome
  refine ⟨regex, hregex, ?_⟩
  intro text
  rw [haccepts, Format.matchesPattern, hread, hregex]

/-- A format is exported under a name or as a pattern, and never as both. -/
theorem exported_cases (format : Format) :
    (∃ name, format.exportedFormat? = some name ∧ format.exportedPattern? = none)
      ∨ ∃ source, format.exportedFormat? = none ∧ format.exportedPattern? = some source := by
  unfold Format.exportedPattern?
  cases h : format.exportedFormat? with
  | some name => exact Or.inl ⟨name, rfl, rfl⟩
  | none =>
      have hsome : format.patternText?.isSome = true := by
        cases format <;> simp_all [Format.exportedFormat?, Format.patternText?]
      obtain ⟨source, hsource⟩ := Option.isSome_iff_exists.1 hsome
      exact Or.inr ⟨source, rfl, hsource⟩

/-- The keywords of a format accept the texts of the format. -/
theorem allow_format (format : Format) (text : String) :
    Allow (typeKeywords (.primitive (.format format))) (.string text) ↔ format.accepts text = true := by
  have htype : keywordAccepts ("type", .string "string") (.string text) = true := rfl
  rw [typeKeywords]
  rcases exported_cases format with ⟨name, hname, hpattern⟩ | ⟨source, hname, hpattern⟩
  · rw [hname, hpattern]
    show Allow [("type", .string "string"), ("format", .string name)] (.string text) ↔ _
    rw [allow_cons, allow_cons, Json.keywordAccepts_format, Json.hasFormat, ofExported?_of_eq hname]
    exact ⟨fun h => h.2.1, fun h => ⟨htype, h, allow_nil _⟩⟩
  · obtain ⟨regex, hregex, haccepts⟩ := accepts_of_exportedPattern? hpattern
    rw [hname, hpattern, haccepts]
    show Allow [("type", .string "string"), ("pattern", .string source)] (.string text) ↔ _
    rw [allow_cons, allow_cons, Json.keywordAccepts_pattern, Json.hasPattern, hregex]
    exact ⟨fun h => h.2.1, fun h => ⟨htype, h, allow_nil _⟩⟩

/-- A type without a format asks for its JSON type, if for anything. -/
theorem allow_plainType {base : BaseType} {value : Json}
    (hkeywords : typeKeywords base = [("type", .string base.name)])
    (htype : Json.hasType (.string base.name) value = base.fits value)
    (hformat : OwnFault.ofFormat? base value = none) :
    Allow (typeKeywords base) value ↔ base.fits value = true ∧ OwnFault.ofFormat? base value = none := by
  rw [hkeywords, allow_cons, Json.keywordAccepts_type, htype]
  exact ⟨fun h => ⟨h.1, hformat⟩, fun h => ⟨h.1, allow_nil value⟩⟩

/-- **THE KEYWORDS OF A TYPE ACCEPT ITS VALUES.** -/
theorem allow_typeKeywords (base : BaseType) (value : Json) :
    Allow (typeKeywords base) value ↔ base.fits value = true ∧ OwnFault.ofFormat? base value = none := by
  cases base with
  | object => exact allow_plainType rfl (by cases value <;> rfl) rfl
  | array => exact allow_plainType rfl (by cases value <;> rfl) rfl
  | primitive p =>
      cases p with
      | any => exact ⟨fun _ => ⟨rfl, rfl⟩, fun _ => allow_nil value⟩
      | string | number | integer | boolean | null =>
          exact allow_plainType rfl (by cases value <;> rfl) rfl
      | format format =>
          -- a format is only looked at in strings, so the type keyword has to refuse the others
          have hrefused : ∀ other : Json, other.isString = false →
              ¬Allow (typeKeywords (.primitive (.format format))) other := by
            intro other hother hallow
            have htype := hallow ("type", .string "string")
              (List.mem_append_left _ (List.mem_append_left _ List.mem_cons_self))
            rw [Json.keywordAccepts_type] at htype
            exact absurd (hother.symm.trans htype) Bool.false_ne_true
          cases value with
          | string text =>
              rw [allow_format]
              exact ⟨fun h => ⟨rfl, if_pos h⟩, fun h => of_ite_eq_none h.2⟩
          | null | bool | integer | float | array | object =>
              exact iff_of_false (hrefused _ rfl) nofun

/-! ### Choices -/

/-- **THE KEYWORD OF THE CHOICES ACCEPTS THE CHOICES.** -/
theorem allow_choices (literals : List Literal) {value : Json} (hdata : value.IsDatum) :
    Allow (choices literals) value ↔ OwnFault.ofChoices? literals value = none := by
  unfold choices OwnFault.ofChoices?
  by_cases hempty : literals.isEmpty = true
  · rw [if_pos hempty, hempty, Bool.true_or, if_pos rfl]
    exact ⟨fun _ => rfl, fun _ => allow_nil value⟩
  · have hlisted : Json.isListed (.array (literals.map Literal.toJson)) value
        = literals.any fun literal => literal.accepts value := by
      show (literals.map Literal.toJson).any _ = _
      rw [List.any_map]
      exact congrArg _ (funext fun literal => Json.equals_toJson literal hdata)
    rw [if_neg hempty, Bool.eq_false_iff.2 hempty, Bool.false_or, allow_cons, Json.keywordAccepts_enum,
      hlisted]
    exact ⟨fun h => if_pos h.1, fun h => ⟨of_ite_eq_none h, allow_nil value⟩⟩

/-! ### Clauses of a type -/

/-- A value of a type has the measure of the type. -/
theorem exists_of?_of_fits {base : BaseType} {measure : Measure} {value : Json}
    (hmeasure : base.measure? = some measure) (hfits : base.fits value = true) :
    ∃ x, measure.of? value = some x := by
  have hmeasured : (measure.of? value).isSome = true := by
    -- each base type that has a measure fits only the values that the measure is defined on
    cases base with
    | object =>
        obtain rfl := Option.some.inj hmeasure
        cases value <;> simp_all [BaseType.fits, Measure.of?]
    | array =>
        obtain rfl := Option.some.inj hmeasure
        cases value <;> simp_all [BaseType.fits, Measure.of?]
    | primitive p =>
        cases p with
        | boolean => exact nomatch hmeasure
        | null => exact nomatch hmeasure
        | any => exact nomatch hmeasure
        | string =>
            obtain rfl := Option.some.inj hmeasure
            cases value <;> simp_all [BaseType.fits, Primitive.fits, Measure.of?]
        | format format =>
            obtain rfl := Option.some.inj hmeasure
            cases value <;> simp_all [BaseType.fits, Primitive.fits, Measure.of?]
        | number =>
            obtain rfl := Option.some.inj hmeasure
            cases value <;> simp_all [BaseType.fits, Primitive.fits, Measure.of?, Json.asBinary64?]
        | integer =>
            obtain rfl := Option.some.inj hmeasure
            cases value <;> simp_all [BaseType.fits, Primitive.fits, Measure.of?, Json.isIntegral, Json.asBinary64?]
  exact Option.isSome_iff_exists.1 hmeasured

/-- A clause has no objection exactly if its check has none to what is measured. -/
theorem ofClause?_eq_none_iff {base : BaseType} {clause : Clause} {measure : Measure} {value : Json}
    {x : Binary64} (hmeasure : base.measure? = some measure) (hx : measure.of? value = some x) :
    OwnFault.ofClause? base (some clause) value = none ↔ clause.check x = none := by
  unfold OwnFault.ofClause?
  show (base.measure?.bind fun measure => (measure.of? value).bind fun measured =>
    (clause.check measured).bind fun breach => some (OwnFault.clause measure breach)) = none ↔ _
  rw [hmeasure, Option.bind_some, hx, Option.bind_some]
  cases clause.check x with
  | none => exact ⟨fun _ => rfl, fun _ => rfl⟩
  | some breach => exact ⟨nofun, nofun⟩

/-- The clause of a lawful node is accepted as keywords if it is kept. -/
theorem allow_clauseKeywords {base : BaseType} {facets : Facets} {value : Json}
    (hlawful : facets.Lawful base) (hdata : value.IsDatum) (hfits : base.fits value = true)
    (h : OwnFault.ofClause? base facets.clause value = none) :
    Allow (clauseKeywords base facets.clause) value := by
  cases hclause : facets.clause with
  | none => exact allow_nil value
  | some clause =>
      obtain ⟨measure, hmeasure, hsuits⟩ := hlawful.clause clause hclause
      obtain ⟨x, hx⟩ := exists_of?_of_fits hmeasure hfits
      rw [hclause, ofClause?_eq_none_iff hmeasure hx] at h
      unfold clauseKeywords
      rw [hmeasure]
      exact allow_clause_of_check hsuits hdata hx h

/-- The clause of a lawful node is kept if it is accepted as keywords. -/
theorem ofClause?_of_allow {base : BaseType} {facets : Facets} {value : Json}
    (hlawful : facets.Lawful base) (hreach : ∀ clause ∈ facets.clause, clause.Reachable)
    (hdata : value.IsDatum) (hmodest : value.IsModest) (hfits : base.fits value = true)
    (h : Allow (clauseKeywords base facets.clause) value) :
    OwnFault.ofClause? base facets.clause value = none := by
  cases hclause : facets.clause with
  | none => rfl
  | some clause =>
      obtain ⟨measure, hmeasure, hsuits⟩ := hlawful.clause clause hclause
      obtain ⟨x, hx⟩ := exists_of?_of_fits hmeasure hfits
      rw [ofClause?_eq_none_iff hmeasure hx]
      unfold clauseKeywords at h
      rw [hclause, hmeasure] at h
      exact check_of_allow_clause hsuits (hreach clause hclause) hdata hmodest hx h

/-! ### Patterns -/

/-- A pattern that was read matches in a document as it does in a schema. -/
theorem hasPattern_iff {pattern : Pattern} (hread : pattern.IsRead) (value : Json) :
    Json.hasPattern (.string pattern.source) value = true
      ↔ OwnFault.ofPattern? (some pattern) value = none := by
  obtain ⟨source, regex⟩ := pattern
  have hregex : Regex.ofText? source = some regex := hread
  cases value with
  | string text =>
      rw [Json.hasPattern, hregex, OwnFault.ofPattern?]
      exact ⟨fun h => if_pos h, of_ite_eq_none⟩
  | null => exact ⟨fun _ => rfl, fun _ => rfl⟩
  | bool b => exact ⟨fun _ => rfl, fun _ => rfl⟩
  | integer n => exact ⟨fun _ => rfl, fun _ => rfl⟩
  | float y => exact ⟨fun _ => rfl, fun _ => rfl⟩
  | array items => exact ⟨fun _ => rfl, fun _ => rfl⟩
  | object members => exact ⟨fun _ => rfl, fun _ => rfl⟩

/-! ### Replacing keywords -/

/-- A keyword that is put is accepted, and so is every other keyword that was. -/
theorem allow_put {members : Members Json} {name : String} {argument value : Json}
    (h : Allow members value) (hput : keywordAccepts (name, argument) value = true) :
    Allow (Members.put members name argument) value := by
  intro keyword hmem
  rcases Members.mem_of_mem_put hmem with rfl | hold
  · exact hput
  · exact h keyword hold

/-- A keyword that accepts everything may be put anywhere. -/
theorem allow_put_iff {members : Members Json} {name : String} (argument : Json) {value : Json}
    (h : ∀ other, keywordAccepts (name, other) value = true) :
    Allow (Members.put members name argument) value ↔ Allow members value := by
  induction members with
  | nil =>
      rw [Members.put, allow_cons]
      exact ⟨And.right, fun hnil => ⟨h argument, hnil⟩⟩
  | cons entry rest ih =>
      obtain ⟨key, old⟩ := entry
      rw [Members.put]
      by_cases hkey : key = name
      · subst hkey
        rw [if_pos rfl, allow_cons, allow_cons]
        exact ⟨fun hall => ⟨h old, hall.2⟩, fun hall => ⟨h argument, hall.2⟩⟩
      · rw [if_neg hkey, allow_cons, allow_cons, ih]

/-- **THE WORDING OF A NODE ASKS FOR NOTHING.** -/
theorem accepts_finish (facets : Facets) (members : Members Json) (value : Json) :
    Json.accepts (finish facets members) value = true ↔ Allow members value := by
  have htext : ∀ (keyword : String) (text : Option String) (inner : Members Json),
      (∀ other, keywordAccepts (keyword, other) value = true) →
      (Allow (putText keyword text inner) value ↔ Allow inner value) := by
    intro keyword text inner h
    cases text with
    | none => exact Iff.rfl
    | some text => exact allow_put_iff _ h
  unfold finish
  rw [accepts_object_iff, htext "description" _ _ (Json.keywordAccepts_description · value),
    htext "title" _ _ (Json.keywordAccepts_title · value)]

/-! ### Own checks -/

theorem ne_pattern_of_mem_singleton {keyword : String} {argument : Json} {entry : String × Json}
    (hkeyword : keyword ≠ "pattern") (h : entry ∈ [(keyword, argument)]) : entry.1 ≠ "pattern" := by
  rw [List.mem_singleton.1 h]
  exact hkeyword

/-- Most types are exported without a pattern. -/
theorem ne_pattern_of_mem_typeKeywords {base : BaseType} (hbase : base.exportedPattern? = none)
    {entry : String × Json} (h : entry ∈ typeKeywords base) : entry.1 ≠ "pattern" := by
  have htype : "type" ≠ "pattern" := by decide
  cases base with
  | object => exact ne_pattern_of_mem_singleton htype h
  | array => exact ne_pattern_of_mem_singleton htype h
  | primitive p =>
      cases p with
      | any => exact nomatch h
      | string => exact ne_pattern_of_mem_singleton htype h
      | number => exact ne_pattern_of_mem_singleton htype h
      | integer => exact ne_pattern_of_mem_singleton htype h
      | boolean => exact ne_pattern_of_mem_singleton htype h
      | null => exact ne_pattern_of_mem_singleton htype h
      | format format =>
          have hnone : format.exportedPattern? = none := hbase
          rw [typeKeywords, hnone] at h
          rcases List.mem_append.1 h with h | h
          · rcases List.mem_append.1 h with h | h
            · exact ne_pattern_of_mem_singleton htype h
            · obtain ⟨name, -, rfl⟩ := Option.map_eq_some_iff.1 (Option.mem_toList.1 h)
              show "format" ≠ "pattern"
              decide
          · exact nomatch h

/-- The keyword of a bound is the one it is written under. -/
theorem fst_of_mem_bound? {keyword : String} {limit : Option Binary64} {entry : String × Json}
    (h : entry ∈ bound? keyword limit) : entry.1 = keyword := by
  cases limit with
  | none => exact nomatch h
  | some limit => rw [List.mem_singleton.1 h]

/-- A clause is exported without a pattern. -/
theorem ne_pattern_of_mem_clause {measure : Measure} {bounds : Clause} {entry : String × Json}
    (h : entry ∈ Export.clause measure bounds) : entry.1 ≠ "pattern" := by
  have hleast : (keywords measure).1 ≠ "pattern" := by cases measure <;> decide
  have hmost : (keywords measure).2 ≠ "pattern" := by cases measure <;> decide
  unfold Export.clause at h
  split at h
  · cases bounds <;> grind [valueClause, bound, fst_of_mem_bound?]
  · cases bounds <;> grind [countClause, bound, fst_of_mem_bound?]

/-- A node whose type is exported without a pattern writes no pattern but its own. -/
theorem ne_pattern_of_mem {base : BaseType} (hbase : base.exportedPattern? = none)
    {literals : List Literal} {bounds : Option Clause} {entry : String × Json}
    (h : entry ∈ typeKeywords base ++ choices literals ++ clauseKeywords base bounds) :
    entry.1 ≠ "pattern" := by
  rcases List.mem_append.1 h with h | h
  · rcases List.mem_append.1 h with h | h
    · exact ne_pattern_of_mem_typeKeywords hbase h
    · unfold choices at h
      split at h
      · exact nomatch h
      · exact ne_pattern_of_mem_singleton (by decide) h
  · unfold clauseKeywords at h
    split at h
    · exact ne_pattern_of_mem_clause h
    · exact nomatch h

/-- **WHAT KEEPS THE CHECKS OF A NODE IS ACCEPTED BY ITS KEYWORDS.** -/
theorem allow_own {base : BaseType} {facets : Facets} {value : Json} (hlawful : facets.Lawful base)
    (hread : ∀ pattern ∈ facets.pattern, pattern.IsRead) (hdata : value.IsDatum)
    (hfits : base.fits value = true) (h : facets.KeptBy base value) :
    Allow (own base facets) value := by
  have hchecks : Allow (typeKeywords base ++ choices facets.choices
      ++ clauseKeywords base facets.clause) value := by
    rw [allow_append, allow_append]
    exact ⟨⟨(allow_typeKeywords base value).2 ⟨hfits, h.format⟩,
      (allow_choices facets.choices hdata).2 h.choices⟩,
      allow_clauseKeywords hlawful hdata hfits h.clause⟩
  unfold own
  cases hpattern : facets.pattern with
  | none => exact hchecks
  | some pattern =>
      refine allow_put hchecks ?_
      rw [Json.keywordAccepts_pattern, hasPattern_iff (hread pattern hpattern), ← hpattern]
      exact h.pattern

/-- **WHAT THE KEYWORDS OF A NODE ACCEPT KEEPS ITS CHECKS**, if none of them was replaced
    or left without a number. -/
theorem kept_of_allow_own {base : BaseType} {facets : Facets} {value : Json}
    (hlawful : facets.Lawful base) (hread : ∀ pattern ∈ facets.pattern, pattern.IsRead)
    (hwhole : facets.ExportedWhole base) (hdata : value.IsDatum) (hmodest : value.IsModest)
    (h : Allow (own base facets) value) : base.fits value = true ∧ facets.KeptBy base value := by
  have hparts : Allow (typeKeywords base ++ choices facets.choices
        ++ clauseKeywords base facets.clause) value
      ∧ OwnFault.ofPattern? facets.pattern value = none := by
    unfold own at h
    cases hpattern : facets.pattern with
    | none =>
        rw [hpattern] at h
        exact ⟨h, rfl⟩
    | some pattern =>
        -- the pattern replaces no keyword, so it stands behind the others
        have hfree := hwhole.pattern.resolve_left (by rw [hpattern]; exact nofun)
        rw [hpattern, putPattern, Members.put_of_ne _ fun _ hmem => ne_pattern_of_mem hfree hmem,
          allow_append, allow_cons, Json.keywordAccepts_pattern] at h
        exact ⟨h.1, (hasPattern_iff (hread pattern hpattern) value).1 h.2.1⟩
  obtain ⟨hchecks, hpattern⟩ := hparts
  rw [allow_append, allow_append, allow_typeKeywords, allow_choices facets.choices hdata] at hchecks
  obtain ⟨⟨⟨hfits, hformat⟩, hchoices⟩, hclause⟩ := hchecks
  exact ⟨hfits, hformat, hchoices,
    ofClause?_of_allow hlawful hwhole.clause hdata hmodest hfits hclause, hpattern⟩

end Export

end Conform

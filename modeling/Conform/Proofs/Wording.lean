import Conform.Proofs.StatedNumbers
import Conform.Proofs.Unworded
import Conform.Schema

/-! # Wording — built-in errors have a text

    The key of a message is put together from what was measured and the rule that was
    broken, and the built-in tables have no template for some of the keys that could be put
    together: no text is equal to a number, no number has a length.  The clauses that a
    specification can write never come to those keys.

    The keys that do arise are listed with the parameters they come with, the VOCABULARY.
    The built-in tables have a template for each of them, and every hole of it has a
    parameter (`covered_vocabulary`).  Every built-in error of a tree without messages of its
    own is worded in the vocabulary (`isWorded_of_report`), so its message is a template whose
    holes are all filled. -/

namespace Conform

/-! ## The vocabulary -/

/-- The keywords of the errors that no check or chain from outside words. -/
def FieldError.builtinKeywords : List String :=
  ["required", "type", "enum", "min", "max", "length", "equal", "format", "pattern", "unknown"]

/-- The names of the parameters of errors that state a limit. -/
def limitNames : List String := ["limit", "label"]

/-- The names of the parameters of errors that also say whether the limit is allowed. -/
def endNames : List String := ["limit", "exclusive", "label"]

/-- The keys of built-in errors, with the names of the parameters that they come with. -/
def vocabulary : List (String × List String) :=
  [("required", ["label"]), ("type", ["type", "label"]), ("union", ["types", "label"]),
    ("enum", ["allowed", "values", "label"]), ("pattern", ["pattern", "label"]),
    ("format", ["format", "label"]), ("unknown", ["label"]),
    ("string.min", endNames), ("string.gt", endNames), ("string.max", endNames),
    ("string.lt", endNames), ("string.length", limitNames),
    ("number.min", endNames), ("number.gt", endNames), ("number.max", endNames),
    ("number.lt", endNames), ("number.equal", limitNames),
    ("array.min", endNames), ("array.gt", endNames), ("array.max", endNames),
    ("array.lt", endNames), ("array.length", limitNames),
    ("object.min", endNames), ("object.gt", endNames), ("object.max", endNames),
    ("object.lt", endNames), ("object.length", limitNames)]

/-- The table has a template for the key, and its holes are among the names. -/
def MessageTable.covers (table : MessageTable) (key : String) (names : List String) : Bool :=
  match Members.valueOf? table key with
  | some template => template.holes.all names.contains
  | none => false

/-- A table covers a key exactly if it has a template that asks for known parameters only. -/
theorem MessageTable.covers_iff {table : MessageTable} {key : String} {names : List String} :
    table.covers key names = true
      ↔ ∃ template, Members.valueOf? table key = some template ∧ ∀ hole ∈ template.holes, hole ∈ names := by
  unfold covers
  cases Members.valueOf? table key with
  | none => exact ⟨nofun, nofun⟩
  | some template =>
      simp only [List.all_eq_true, List.contains_iff_mem, Option.some.injEq, exists_eq_left']

/-- **BOTH TABLES COVER THE VOCABULARY.** -/
theorem covered_vocabulary :
    ∀ entry ∈ vocabulary,
      MessageTable.covers englishMessages entry.1 entry.2 = true
        ∧ MessageTable.covers chineseMessages entry.1 entry.2 = true := by
  decide +kernel

/-! ## Breaches -/

/-- The rule can be broken by this measure: only values are equal to a number, and they
    have no count. -/
def Breach.Suits (measure : Measure) : Breach → Prop
  | .equal _ => measure = .value
  | .count _ => measure ≠ .value
  | _ => True

/-- A clause that suits a measure is broken by a rule that does. -/
theorem Clause.suits_of_check {clause : Clause} {measure : Measure} {measured : Binary64}
    {breach : Breach} (hsuits : clause.Suits measure) (h : clause.check measured = some breach) :
    breach.Suits measure := by
  cases clause with
  | range least most =>
      rw [check] at h
      split at h
      · obtain rfl := Option.some.inj h
        trivial
      · obtain ⟨bound, -, rfl⟩ := Option.map_eq_some_iff.1 h
        trivial
  | above bound =>
      obtain ⟨-, heq⟩ := Option.ite_none_right_eq_some.1 h
      obtain rfl := Option.some.inj heq
      trivial
  | atLeast bound =>
      obtain ⟨-, heq⟩ := Option.ite_none_right_eq_some.1 h
      obtain rfl := Option.some.inj heq
      trivial
  | below bound =>
      obtain ⟨-, heq⟩ := Option.ite_none_right_eq_some.1 h
      obtain rfl := Option.some.inj heq
      trivial
  | atMost bound =>
      obtain ⟨-, heq⟩ := Option.ite_none_right_eq_some.1 h
      obtain rfl := Option.some.inj heq
      trivial
  | equalTo bound =>
      obtain ⟨-, heq⟩ := Option.ite_none_left_eq_some.1 h
      obtain rfl := Option.some.inj heq
      -- a clause of this shape fits one measure only, and the breach names that measure
      exact hsuits.1
  | exactly count =>
      obtain ⟨-, heq⟩ := Option.ite_none_left_eq_some.1 h
      obtain rfl := Option.some.inj heq
      exact hsuits.1

/-- A lawful node breaks its clause by a rule that suits its measure. -/
theorem OwnFault.exists_breach_of_ofClause? {node : Node} {value : Json} {fault : OwnFault}
    (hlawful : node.facets.Lawful node.base)
    (h : ofClause? node.base node.facets.clause value = some fault) :
    ∃ measure breach, fault = .clause measure breach ∧ breach.Suits measure := by
  unfold ofClause? at h
  obtain ⟨clause, hclause, h⟩ := Option.bind_eq_some_iff.1 h
  obtain ⟨measure, hmeasure, h⟩ := Option.bind_eq_some_iff.1 h
  obtain ⟨measured, -, h⟩ := Option.bind_eq_some_iff.1 h
  obtain ⟨breach, hbreach, h⟩ := Option.bind_eq_some_iff.1 h
  obtain ⟨lawful, hsame, hsuits⟩ := hlawful.clause clause hclause
  obtain rfl : lawful = measure := Option.some.inj (hsame.symm.trans hmeasure)
  exact ⟨lawful, breach, (Option.some.inj h).symm, Clause.suits_of_check hsuits hbreach⟩

/-- **THE KEYS THAT ARE PUT TOGETHER ARE IN THE VOCABULARY.** -/
theorem mem_vocabulary_of_suits {measure : Measure} {breach : Breach} (h : breach.Suits measure) :
    (Rules.measureKey measure ++ "." ++ breach.rule,
      Members.names (Rules.breachParams breach) ++ ["label"]) ∈ vocabulary := by
  have hends : ∀ (measure : Measure) (exclusive : Bool),
      (Rules.measureKey measure ++ "." ++ (if exclusive then "gt" else "min"), endNames) ∈ vocabulary
        ∧ (Rules.measureKey measure ++ "." ++ (if exclusive then "lt" else "max"), endNames)
          ∈ vocabulary := by
    intro measure exclusive
    cases measure <;> cases exclusive <;> decide +kernel
  have hcount : ∀ measure : Measure, measure ≠ .value →
      (Rules.measureKey measure ++ "." ++ "length", limitNames) ∈ vocabulary := by
    intro measure
    cases measure <;> decide +kernel
  cases breach with
  | least limit exclusive => exact (hends measure exclusive).1
  | most limit exclusive => exact (hends measure exclusive).2
  | equal limit =>
      obtain rfl : measure = .value := h
      show ("number" ++ "." ++ "equal", limitNames) ∈ vocabulary
      decide +kernel
  | count limit => exact hcount measure h

/-! ## Errors -/

/-- The parameters that a message is made with: those of the error, and a label. -/
def FieldError.paramsWith (error : FieldError) (label : String) : Members Json :=
  Members.put error.params "label" (.string label)

theorem FieldError.names_paramsWith {error : FieldError}
    (h : Members.hasName error.params "label" = false) (label : String) :
    Members.names (error.paramsWith label) = Members.names error.params ++ ["label"] := by
  rw [paramsWith, Members.names_put, h]
  rfl

namespace Rules

/-- The error is worded under a key of the vocabulary, with the parameters that the key
    comes with. -/
def IsWorded (rules : Rules) (error : FieldError) : Prop :=
  ∃ key label, (key, Members.names (error.paramsWith label)) ∈ vocabulary
    ∧ error.message = rules.service.message key (error.paramsWith label) rules.config.locale

variable {rules : Rules} {node : Node} {site : Site} {place : Place} {error : FieldError}

/-- **AN ERROR OF THE VOCABULARY IS WORDED**: its key has a template for its parameters. -/
theorem isWorded_error {text keyword key label : String} {params : Members Json}
    (hlabel : Members.hasName params "label" = false)
    (hkey : (key, Members.names params ++ ["label"]) ∈ vocabulary) :
    rules.IsWorded (rules.error text keyword key params label) := by
  refine ⟨key, label, ?_, rfl⟩
  rw [FieldError.names_paramsWith hlabel]
  exact hkey

/-- A node without messages leaves the key as it is. -/
theorem isWorded_keyedError {keyword key : String} {params : Members Json} (names : List String)
    (hnode : node.Unworded) (hlabel : Members.hasName params "label" = false)
    (hnames : Members.names params = names) (hkey : (key, names ++ ["label"]) ∈ vocabulary) :
    rules.IsWorded (rules.keyedError node place keyword key params) := by
  unfold keyedError
  rw [hnode.messages]
  refine isWorded_error hlabel ?_
  rw [hnames]
  exact hkey

/-- Every fault of a node is worded. -/
theorem isWorded_broken {value : Json} {fault : OwnFault} (hnode : node.Unworded)
    (hfault : fault ∈ node.ownFaults value) : rules.IsWorded (rules.broken node place fault) := by
  rcases OwnFault.mem_ownFaults_iff.1 hfault with hformat | hchoices | hclause | hpattern
  · obtain ⟨format, rfl⟩ := OwnFault.exists_format_of_ofFormat? hformat
    exact isWorded_keyedError ["format"] hnode rfl rfl (by decide +kernel)
  · obtain rfl := OwnFault.eq_choices_of_ofChoices? hchoices
    exact isWorded_keyedError ["allowed", "values"] hnode rfl rfl (by decide +kernel)
  · obtain ⟨measure, breach, rfl, hsuits⟩ := OwnFault.exists_breach_of_ofClause? hnode.lawful hclause
    refine isWorded_keyedError _ hnode ?_ rfl (mem_vocabulary_of_suits hsuits)
    cases breach <;> rfl
  · obtain ⟨source, rfl⟩ := OwnFault.exists_pattern_of_ofPattern? hpattern
    exact isWorded_keyedError ["pattern"] hnode rfl rfl (by decide +kernel)

/-- What an unworded node opens with is worded in the vocabulary, chains apart. -/
theorem isWorded_of_mem_opening {slot : Slot} (hnode : node.Unworded)
    (hslot : slot ∈ rules.opening node site) (herror : rules.outcome? slot = some error)
    (hkeyword : error.keyword ∈ FieldError.builtinKeywords) : rules.IsWorded error := by
  obtain ⟨found, rfl, hfound⟩ := exists_openingError hslot
  obtain rfl := Option.some.inj herror
  cases hfound with
  | missing habsent => exact isWorded_keyedError [] hnode rfl rfl (by decide +kernel)
  | wrongType hvalue => exact isWorded_keyedError ["type"] hnode rfl rfl (by decide +kernel)
  | noMember hvalue members => exact isWorded_keyedError ["types"] hnode rfl rfl (by decide +kernel)
  | broken hvalue hfault => exact isWorded_broken hnode hfault
  | failing message =>
      have hforeign : "conditional" ∉ FieldError.builtinKeywords := by decide
      exact absurd hkeyword hforeign

/-- What a node closes with is worded in the vocabulary, its custom checks apart. -/
theorem isWorded_of_mem_closing {slot : Slot} (hslot : slot ∈ rules.closing node site)
    (herror : rules.outcome? slot = some error)
    (hkeyword : error.keyword ∈ FieldError.builtinKeywords) : rules.IsWorded error := by
  obtain ⟨value, -, ⟨name, -, -, rfl⟩ | ⟨-, hcustoms⟩⟩ := mem_closing hslot
  · obtain rfl := Option.some.inj herror
    exact isWorded_error rfl (by decide +kernel)
  · have hcustom := (place_keyword_of_outcome? herror).2.trans (place_keyword_of_mem_customs hcustoms).2
    have hforeign : "custom" ∉ FieldError.builtinKeywords := by decide
    rw [hcustom] at hkeyword
    exact absurd hkeyword hforeign

/-- What holds throughout a node holds throughout what is kept for it. -/
theorem every_of_keeps {P : Node → Prop} {kept : Node} {keptSite : Site}
    (h : rules.Keeps node site kept keptSite) (hnode : node.Every P) : kept.Every P := by
  induction h with
  | here node site => exact hnode
  | step hpart hkept ih => exact ih (hnode.inside hpart.mem_children)

/-- **EVERY BUILT-IN ERROR IS WORDED IN THE VOCABULARY**, at once and with waiting. -/
theorem isWorded_of_report {value : Json} {report : Report} (hnode : node.Every Node.Unworded)
    (h : (rules.validate node value).value = .ok report
      ∨ (rules.validateWaiting node value).value = .ok report) :
    ∀ error ∈ report.errors, error.keyword ∈ FieldError.builtinKeywords → rules.IsWorded error := by
  intro error hmem hkeyword
  obtain ⟨slots, hslots, herrors⟩ := exists_sublist_of_report h
  rw [herrors] at hmem
  obtain ⟨slot, hslot, herror⟩ := List.mem_filterMap.1 hmem
  obtain ⟨kept, keptSite, hkept, hslot⟩ := exists_keeps_of_mem_findings (hslots.subset hslot)
  rcases hslot with hopening | hclosing
  · exact isWorded_of_mem_opening (every_of_keeps hkept hnode).here hopening herror hkeyword
  · exact isWorded_of_mem_closing hclosing herror hkeyword

end Rules

/-! ## Catalogs -/

namespace Catalog

/-- Without templates of its own a configuration has the built-in catalog. -/
theorem ofConfig_eq_builtin {config : Config} (h : ∀ table ∈ config.messages, table.2 = []) :
    ofConfig config = builtin := by
  unfold ofConfig
  generalize builtin = catalog
  generalize config.messages = tables at h
  induction tables generalizing catalog with
  | nil => rfl
  | cons table rest ih =>
      rw [List.forall_mem_cons] at h
      have hnone : catalog.withTable table.1 table.2 = catalog := by rw [h.1]; rfl
      rw [List.foldl_cons, hnone]
      exact ih catalog h.2

/-- A key that both built-in tables have is looked up in the table of its locale, which is
    the English one for every other locale. -/
theorem template?_builtin {key : String} {english chinese : Template}
    (henglish : Members.valueOf? englishMessages key = some english)
    (hchinese : Members.valueOf? chineseMessages key = some chinese) (locale : String) :
    builtin.template? key locale = some (if locale = "zh-CN" then chinese else english) := by
  have htables : Members.valueOf? builtin.tables locale
      = if locale = "en-US" then some englishMessages
        else if locale = "zh-CN" then some chineseMessages else none := by
    show (if "en-US" = locale then _ else if "zh-CN" = locale then _ else none) = _
    simp only [eq_comm]
  unfold template?
  rw [htables]
  by_cases hzh : locale = "zh-CN"
  · subst hzh
    rw [if_neg (by decide), if_pos rfl, if_pos rfl]
    show (match Members.valueOf? chineseMessages key with | some t => some t | none => _) = _
    rw [hchinese]
  · rw [if_neg hzh, if_neg hzh]
    have hdefault : (Members.valueOf? builtin.tables defaultLocale).bind
        (fun table => Members.valueOf? table key) = some english := henglish
    rw [hdefault]
    split
    · next found hfound =>
        split at hfound
        · exact hfound.symm.trans henglish
        · exact nomatch hfound
    · rfl

end Catalog

/-! ## Texts of errors -/

/-- The error has a text: its key is in the English table, and in the Chinese one if that is
    asked for, and every hole of the template that is found has a parameter. -/
structure Rules.HasText (rules : Rules) (error : FieldError) (key label : String)
    (template : Template) : Prop where
  message : error.message = rules.service.message key (error.paramsWith label) rules.config.locale
  english : (Members.valueOf? englishMessages key).isSome = true
  chinese : rules.config.locale = "zh-CN" → Members.valueOf? chineseMessages key = some template
  found : (Catalog.ofConfig rules.config).template? key rules.config.locale = some template
  bound : ∀ hole ∈ template.holes, (Members.valueOf? (error.paramsWith label) hole).isSome = true
  text : rules.service = (Catalog.ofConfig rules.config).service →
    error.message = template.fill (error.paramsWith label)

/-- What is worded in the vocabulary has a text. -/
theorem Rules.IsWorded.hasText {rules : Rules} {error : FieldError} (h : rules.IsWorded error)
    (hconfig : ∀ table ∈ rules.config.messages, table.2 = []) :
    ∃ key label template, rules.HasText error key label template := by
  obtain ⟨key, label, hkey, hmessage⟩ := h
  obtain ⟨henglish, hchinese⟩ := covered_vocabulary _ hkey
  obtain ⟨english, henglish, henglishHoles⟩ := MessageTable.covers_iff.1 henglish
  obtain ⟨chinese, hchinese, hchineseHoles⟩ := MessageTable.covers_iff.1 hchinese
  have hfound : (Catalog.ofConfig rules.config).template? key rules.config.locale
      = some (if rules.config.locale = "zh-CN" then chinese else english) := by
    rw [Catalog.ofConfig_eq_builtin hconfig, Catalog.template?_builtin henglish hchinese]
  have hbound {hole : String} (hmem : hole ∈ Members.names (error.paramsWith label)) :
      (Members.valueOf? (error.paramsWith label) hole).isSome = true :=
    Members.hasName_iff_mem_names.2 hmem
  refine ⟨key, label, if rules.config.locale = "zh-CN" then chinese else english, hmessage, ?_, ?_,
    hfound, ?_, ?_⟩
  · rw [henglish]
    rfl
  · intro hlocale
    rw [if_pos hlocale, hchinese]
  · intro hole hmem
    split at hmem
    · exact hbound (hchineseHoles hole hmem)
    · exact hbound (henglishHoles hole hmem)
  · intro hservice
    rw [hmessage, hservice]
    show ((Catalog.template? _ key _).getD _).fill _ = _
    rw [hfound]
    rfl

/-- **BUILT-IN ERRORS ALWAYS HAVE A TEXT**: in every report about a stock tree, in any locale
    and with a configuration without templates of its own, each error with a built-in keyword
    is worded under a key that has a template, and the template is filled without remainder. -/
theorem builtin_errors_have_text {node : Node} (hstock : node.Stock) {rules : Rules}
    (hconfig : ∀ table ∈ rules.config.messages, table.2 = []) {value : Json} {report : Report}
    (h : (rules.validate node value).value = .ok report
      ∨ (rules.validateWaiting node value).value = .ok report) :
    ∀ error ∈ report.errors, error.keyword ∈ FieldError.builtinKeywords →
      ∃ key label template, rules.HasText error key label template := by
  intro error hmem hkeyword
  exact (Rules.isWorded_of_report (Node.unworded_of_stock hstock) h error hmem hkeyword).hasText hconfig

namespace Compiler

theorem isUnworded_text (source : String) : (Spec.text source).IsUnworded :=
  .of_parts_eq_nil ⟨nofun, nofun⟩ rfl

theorem compile_string : ((compile (.text "string")).run {}).1 = .ok (.leaf .string {}) := by
  have houtline : Dsl.Outline.ofText "string".toList = .named false "string".toList := by
    rw [Dsl.Outline.ofText]
    rfl
  rw [compile, compileAt, (compileText_run_of_cacheless "" "string" rfl).1, Dsl.read, houtline]
  rfl

/-- A string under a registered name, with choices that a text writes after the name. -/
theorem stock_codes :
    (Node.leaf .string { choices := [.string "a", .string "b"] }).Stock := by
  have hplain : IsFaithful {} := fun _ hcache => nomatch hcache
  have hdetached : ({} : Compiler).attached = true →
      ∀ other, ({} : Compiler).registry.Yields other → other.Stock := fun hattached => nomatch hattached
  have hstring : (Node.leaf .string {}).Stock :=
    .intro hplain hdetached (isUnworded_text "string") compile_string
  have hfaithful : (codes {}).IsFaithful := fun _ hcache => nomatch hcache
  refine .intro hfaithful (fun _ other hyields => ?_) (isUnworded_text "code:a|b") (compile_codes {})
  obtain ⟨entry, hentry, hprovides⟩ := hyields
  obtain rfl := List.mem_singleton.1 hentry
  obtain rfl : other = .leaf .string {} := hprovides
  exact hstring

/-- The error of a third text, in Chinese. -/
def thirdCode : FieldError :=
  ⟨"", "value必须是以下值之一 [a, b]", "enum",
    [("allowed", .string "a, b"), ("values", .array [.string "a", .string "b"])]⟩

theorem builtin_errors_have_text_codes :
    let node := Node.leaf .string { choices := [.string "a", .string "b"] }
    let rules := Rules.ofConfig { locale := "zh-CN" }
    node.Stock ∧ (∀ table ∈ rules.config.messages, table.2 = [])
      ∧ (rules.validate node (.string "c")).value = .ok ⟨false, [thirdCode]⟩
      ∧ thirdCode.keyword ∈ FieldError.builtinKeywords
      ∧ ∃ key label template, rules.HasText thirdCode key label template := by
  have hreport : ((Rules.ofConfig { locale := "zh-CN" }).validate
      (.leaf .string { choices := [.string "a", .string "b"] }) (.string "c")).value
      = .ok ⟨false, [thirdCode]⟩ := by
    rfl
  have hkeyword : thirdCode.keyword ∈ FieldError.builtinKeywords := by decide
  refine ⟨stock_codes, List.forall_mem_nil _, hreport, hkeyword, ?_⟩
  exact builtin_errors_have_text stock_codes (List.forall_mem_nil _) (.inl hreport) thirdCode
    List.mem_cons_self hkeyword

end Compiler

end Conform

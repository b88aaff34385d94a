import Mathlib.Data.List.Forall2
import Conform.Message.Catalog
import Conform.Proofs.Printing

/-! # Filling — one substitution, from left to right

    A template SPLITS into characters and holes in one way: its holes are those that are
    found from left to right, so no hole begins where a character of plain text stands
    (`isSplit_ofText`, `isSplit_unique`).  The split is a matter of the template alone.
    Filling puts a text in the place of each piece, and what is put there is not looked at
    again, whatever braces it holds.  What is put there for a value that is no string is
    read as the value (`ofText_of_becomes`).

    The templates of a catalog are kept split, and each of them is the split of what it
    was written as (`Catalog.message_eq_interpolate`). -/

namespace Conform

open Conform.Text (Chars isWord)

namespace Template

/-! ## Splits -/

/-- A name that a hole can have: word characters, at least one. -/
def IsName (name : Chars) : Prop := name ≠ [] ∧ ∀ c ∈ name, isWord c = true

/-- The text begins with a hole. -/
def BeginsHole (source : Chars) : Prop :=
  ∃ name more, IsName name ∧ source = holeText name ++ more

/-- The pieces are those of the text: they are written as the text, holes have names, and
    at no character of plain text a hole begins. -/
structure IsSplit (source : Chars) (template : Template) : Prop where
  written : template.text = source
  named : ∀ name, .hole name ∈ template → IsName name.toList
  leftmost : ∀ before c after, template = before ++ .plain c :: after →
    ¬BeginsHole (c :: Template.text after)

section

variable {source name more : Chars} {template other : Template} {c : Char}

/-- A name ends where the closing braces begin. -/
theorem takeWhile_name (h : IsName name) (more : Chars) :
    (name ++ '}' :: more).takeWhile isWord = name
      ∧ (name ++ '}' :: more).dropWhile isWord = '}' :: more := by
  rw [List.takeWhile_append_of_pos h.2, List.dropWhile_append_of_pos h.2]
  exact ⟨List.append_nil name, rfl⟩

/-- A written hole is found, with what comes after it. -/
theorem leadingHole?_holeText (h : IsName name) (more : Chars) :
    leadingHole? (holeText name ++ more) = some (name, more) := by
  obtain ⟨htake, hdrop⟩ := takeWhile_name h ('}' :: more)
  have htext : holeText name ++ more = '{' :: '{' :: '#' :: (name ++ '}' :: '}' :: more) := by
    simp only [holeText, List.cons_append, List.append_assoc, List.nil_append]
  have hsome : name.isEmpty = false := List.isEmpty_eq_false_iff.2 h.1
  rw [htext, leadingHole?, htake, hdrop, hsome]
  rfl

/-- What is found to be a name can be one. -/
theorem isName_of_leadingHole? (h : leadingHole? source = some (name, more)) : IsName name := by
  unfold leadingHole? at h
  split at h
  · rename_i rest
    split at h
    · exact nomatch h
    · rename_i hempty
      split at h
      · obtain ⟨rfl, -⟩ := Prod.mk.inj (Option.some.inj h)
        exact ⟨fun hnil => hempty (List.isEmpty_iff.2 hnil), List.all_eq_true.1 List.all_takeWhile⟩
      · exact nomatch h
  · exact nomatch h

/-- **A TEXT BEGINS WITH ONE HOLE AT MOST**, and that is the one that is found. -/
theorem leadingHole?_eq_some_iff :
    leadingHole? source = some (name, more) ↔ IsName name ∧ source = holeText name ++ more := by
  constructor
  · intro h
    exact ⟨isName_of_leadingHole? h, (text_of_leadingHole? h).symm⟩
  · rintro ⟨hname, rfl⟩
    exact leadingHole?_holeText hname more

/-- No hole is found exactly if the text does not begin with one. -/
theorem leadingHole?_eq_none_iff : leadingHole? source = none ↔ ¬BeginsHole source := by
  constructor
  · rintro h ⟨name, more, hname, rfl⟩
    exact nomatch h.symm.trans (leadingHole?_holeText hname more)
  · intro h
    rw [Option.eq_none_iff_forall_ne_some]
    rintro ⟨name, more⟩ hsome
    exact h ⟨name, more, leadingHole?_eq_some_iff.1 hsome⟩

/-! ### A split, piece by piece -/

theorem isSplit_nil : IsSplit [] [] where
  written := rfl
  named := nofun
  leftmost before c after h := by simp at h

/-- A character before a split text is plain, unless a hole begins with it. -/
theorem IsSplit.plain (hnot : ¬BeginsHole (c :: source)) (h : IsSplit source template) :
    IsSplit (c :: source) (.plain c :: template) where
  written := congrArg (c :: ·) h.written
  named name hmem := by
    rcases List.mem_cons.1 hmem with heq | hmem
    · exact nomatch heq
    · exact h.named name hmem
  leftmost before d after heq := by
    cases before with
    | nil =>
        obtain ⟨hpiece, rfl⟩ := List.cons.inj heq
        obtain rfl := Piece.plain.inj hpiece
        rw [h.written]
        exact hnot
    | cons piece before => exact h.leftmost before d after (List.cons.inj heq).2

/-- A hole before a split text is one piece. -/
theorem IsSplit.hole {name : String} (hname : IsName name.toList) (h : IsSplit source template) :
    IsSplit (holeText name.toList ++ source) (.hole name :: template) where
  written := congrArg (holeText name.toList ++ ·) h.written
  named other hmem := by
    rcases List.mem_cons.1 hmem with heq | hmem
    · exact Piece.hole.inj heq ▸ hname
    · exact h.named other hmem
  leftmost before d after heq := by
    cases before with
    | nil => exact nomatch (List.cons.inj heq).1
    | cons piece before => exact h.leftmost before d after (List.cons.inj heq).2

/-- Without its first piece a split is the split of the rest. -/
theorem IsSplit.tail {piece : Piece} (h : IsSplit source (piece :: template)) :
    IsSplit template.text template where
  written := rfl
  named name hmem := h.named name (List.mem_cons_of_mem piece hmem)
  leftmost before c after heq := h.leftmost (piece :: before) c after (congrArg (piece :: ·) heq)

/-- **WHAT IS READ IS A SPLIT.** -/
theorem isSplit_ofText (source : Chars) : IsSplit source (ofText source) := by
  fun_induction ofText source with
  | case1 source name more h _ ih =>
      obtain ⟨hname, rfl⟩ := leadingHole?_eq_some_iff.1 h
      have hnamed : IsName (String.ofList name).toList := by rwa [String.toList_ofList]
      have hsplit := ih.hole hnamed
      rwa [String.toList_ofList] at hsplit
  | case2 => exact isSplit_nil
  | case3 c rest h ih => exact ih.plain (leadingHole?_eq_none_iff.1 h)

/-- **A TEXT HAS ONE SPLIT**: the first piece can be told from the text, and so can every
    other one in its turn. -/
theorem isSplit_unique (h : IsSplit source template) (hother : IsSplit source other) :
    template = other := by
  induction template generalizing source other with
  | nil =>
      obtain rfl : source = [] := h.written.symm
      cases other with
      | nil => rfl
      | cons piece other => cases piece <;> exact nomatch hother.written
  | cons piece template ih =>
      cases other with
      | nil =>
          obtain rfl : source = [] := hother.written.symm
          cases piece <;> exact nomatch h.written
      | cons piece' other =>
          have hboth : pieceText piece ++ text template = pieceText piece' ++ text other :=
            h.written.trans hother.written.symm
          -- the rests are split alike as soon as the first pieces are the same
          suffices hpiece : piece = piece' by
            obtain rfl := hpiece
            have hrest := List.append_cancel_left hboth
            rw [ih h.tail (hrest ▸ hother.tail)]
          cases piece with
          | plain c =>
              have hc := h.leftmost [] c template rfl
              cases piece' with
              | plain d => rw [(List.cons.inj hboth).1]
              | hole name =>
                  refine absurd ⟨name.toList, text other, ?_, hboth⟩ hc
                  exact hother.named name List.mem_cons_self
          | hole name =>
              have hname := h.named name List.mem_cons_self
              cases piece' with
              | plain d =>
                  exact absurd ⟨name.toList, text template, hname, hboth.symm⟩
                    (hother.leftmost [] d other rfl)
              | hole name' =>
                  have hname' := hother.named name' List.mem_cons_self
                  have hfound := leadingHole?_holeText hname (text template)
                  rw [show holeText name.toList ++ text template = _ from hboth,
                    show leadingHole? (pieceText (.hole name') ++ text other) = _ from
                      leadingHole?_holeText hname' (text other)] at hfound
                  obtain ⟨hsame, -⟩ := Prod.mk.inj (Option.some.inj hfound)
                  rw [String.toList_inj.1 hsame]

/-- Without an opening brace in its plain text, a template is the split of what it is
    written as. -/
theorem ofText_text (hplain : ∀ c, .plain c ∈ template → c ≠ '{')
    (hnamed : ∀ name, .hole name ∈ template → IsName name.toList) :
    ofText template.text = template := by
  refine isSplit_unique (isSplit_ofText _) ⟨rfl, hnamed, ?_⟩
  rintro before c after rfl ⟨name, more, -, heq⟩
  exact hplain c (List.mem_append_right before List.mem_cons_self) (List.cons.inj heq).1

end

/-! ## What becomes of the pieces -/

/-- What a piece becomes: a character stays; a hole becomes the text of its parameter, a
    string as it is and any other value as compact JSON; and a hole without a parameter
    stays as it is written. -/
inductive Becomes (params : Members Json) : Piece → Chars → Prop
  | plain (c : Char) : Becomes params (.plain c) [c]
  | string {name text : String} (h : Members.valueOf? params name = some (.string text)) :
      Becomes params (.hole name) text.toList
  | json {name : String} {value : Json} (h : Members.valueOf? params name = some value)
      (hother : value.isString = false) : Becomes params (.hole name) value.render.toList
  | unbound {name : String} (h : Members.valueOf? params name = none) :
      Becomes params (.hole name) (holeText name.toList)

section

variable {params others : Members Json} {template : Template} {piece : Piece} {result : Chars}

/-- A piece becomes what it is filled with, and nothing else. -/
theorem becomes_iff : Becomes params piece result ↔ fillPiece params piece = result := by
  constructor
  · rintro (_ | h | ⟨h, hother⟩ | h)
    · rfl
    · rw [fillPiece, h]
      rfl
    · rename_i value
      rw [fillPiece, h]
      cases value with
      | string text => exact nomatch hother
      | _ => rfl
    · rw [fillPiece, h]
  · rintro rfl
    cases piece with
    | plain c => exact .plain c
    | hole name =>
        rw [fillPiece]
        cases h : Members.valueOf? params name with
        | none => exact .unbound h
        | some value => cases value with
          | string text => exact .string h
          | _ => exact .json h rfl

/-- What stands for a value that is no string is JSON text of this value. -/
theorem ofText_of_becomes {name : String} {value : Json} (hvalue : Members.valueOf? params name = some value)
    (hother : value.isString = false) (hfit : value.IntegersFit) (hnames : value.NamesDiffer)
    (h : Becomes params (.hole name) result) : Json.ofText (String.ofList result) = .ok value := by
  cases h with
  | string h =>
      obtain rfl := Option.some.inj (h.symm.trans hvalue)
      cases hother
  | json h _ =>
      obtain rfl := Option.some.inj (h.symm.trans hvalue)
      rw [String.ofList_toList]
      exact Json.ofText_render hfit hnames
  | unbound h => cases h.symm.trans hvalue

theorem forall₂_becomes_iff {parts : List Chars} :
    List.Forall₂ (Becomes params) template parts ↔ template.map (fillPiece params) = parts := by
  have hrelation : Becomes params = fun piece result => fillPiece params piece = result :=
    funext fun _ => funext fun _ => propext becomes_iff
  rw [hrelation, ← List.forall₂_map_left_iff (R := Eq), List.forall₂_eq_eq_eq]

/-- Filling is a text in the place of each piece. -/
theorem fill_eq_iff {message : String} : template.fill params = message
    ↔ ∃ parts, List.Forall₂ (Becomes params) template parts ∧ String.ofList parts.flatten = message := by
  simp only [forall₂_becomes_iff]
  constructor
  · rintro rfl
    exact ⟨_, rfl, rfl⟩
  · rintro ⟨parts, rfl, rfl⟩
    rfl

/-- Only the parameters that holes are named for are looked at. -/
theorem fill_congr
    (h : ∀ name ∈ template.holes, Members.valueOf? params name = Members.valueOf? others name) :
    template.fill params = template.fill others := by
  refine congrArg String.ofList ?_
  induction template with
  | nil => rfl
  | cons piece rest ih =>
      rw [List.flatMap_cons, List.flatMap_cons]
      cases piece with
      | plain c => rw [ih h]; rfl
      | hole name =>
          obtain ⟨hname, hrest⟩ := List.forall_mem_cons.1 h
          rw [ih hrest, fillPiece, fillPiece, hname]

end

end Template

open Template

/-! ## Catalogs -/

namespace Catalog

/-- Each template is the split of what it is written as. -/
def IsRead (catalog : Catalog) : Prop :=
  ∀ table ∈ catalog.tables, ∀ entry ∈ table.2, ofText entry.2.text = entry.2

/-- The piece is read as itself wherever it stands: no opening brace, or a hole with a name. -/
def standsAlone : Piece → Bool
  | .plain c => c != '{'
  | .hole name => !name.toList.isEmpty && name.toList.all isWord

/-- The built-in templates hold no braces but those of their holes. -/
theorem isRead_builtin : builtin.IsRead := by
  have hall : ∀ table ∈ builtin.tables, ∀ entry ∈ table.2, ∀ piece ∈ entry.2,
      standsAlone piece = true := by decide +kernel
  intro table htable entry hentry
  refine ofText_text (fun c hc => ?_) fun name hname => ?_
  · exact bne_iff_ne.1 (hall table htable entry hentry _ hc)
  · have hword := hall table htable entry hentry _ hname
    rw [standsAlone, Bool.and_eq_true, Bool.not_eq_true', List.all_eq_true] at hword
    exact ⟨List.isEmpty_eq_false_iff.1 hword.1, hword.2⟩

/-- Templates that are added to a catalog are read from their texts. -/
theorem isRead_withTemplate {catalog : Catalog} (h : catalog.IsRead) (locale key : String)
    (source : Chars) : (catalog.withTemplate locale key (.ofText source)).IsRead := by
  intro table htable entry hentry
  rcases Members.mem_of_mem_put htable with rfl | hold
  · rcases Members.mem_of_mem_put hentry with rfl | hold
    · exact congrArg ofText (text_ofText source)
    · -- the entry was in the table of the locale before
      cases hfound : Members.valueOf? catalog.tables locale with
      | none =>
          rw [hfound] at hold
          exact nomatch hold
      | some before =>
          rw [hfound] at hold
          exact h _ (Members.mem_of_valueOf?_eq_some hfound) entry hold
  · exact h table hold entry hentry

/-- **EVERY TEMPLATE OF A CATALOG IS READ**, be it built in or configured. -/
theorem isRead_ofConfig (config : Config) : (ofConfig config).IsRead := by
  have htable : ∀ (locale : String) (table : Members String) (catalog : Catalog), catalog.IsRead →
      (catalog.withTable locale table).IsRead := by
    intro locale table
    induction table with
    | nil => exact fun _ h => h
    | cons entry rest ih => exact fun catalog h => ih _ (isRead_withTemplate h locale entry.1 _)
  have hall : ∀ (messages : Members (Members String)) (catalog : Catalog), catalog.IsRead →
      (messages.foldl (fun done entry => done.withTable entry.1 entry.2) catalog).IsRead := by
    intro messages
    induction messages with
    | nil => exact fun _ h => h
    | cons entry rest ih => exact fun catalog h => ih _ (htable entry.1 entry.2 catalog h)
  exact hall config.messages builtin isRead_builtin

/-- A template that is found is the split of what it is written as. -/
theorem ofText_of_template? {catalog : Catalog} (h : catalog.IsRead) {key locale : String}
    {template : Template} (hfound : catalog.template? key locale = some template) :
    ofText template.text = template := by
  have hone : ∀ locale, ((Members.valueOf? catalog.tables locale).bind fun table =>
      Members.valueOf? table key) = some template → ofText template.text = template := by
    intro locale hlocale
    obtain ⟨table, htable, hentry⟩ := Option.bind_eq_some_iff.1 hlocale
    exact h _ (Members.mem_of_valueOf?_eq_some htable) _ (Members.mem_of_valueOf?_eq_some hentry)
  unfold template? at hfound
  split at hfound
  · rename_i hlocale
    exact hone locale (hlocale.trans hfound)
  · exact hone defaultLocale hfound

/-- What the template under a key is written as; an unknown key is its own template. -/
def source (catalog : Catalog) (key locale : String) : String :=
  ((catalog.template? key locale).map fun template => String.ofList template.text).getD key

/-- A message is its template as it is written, interpolated. -/
theorem message_eq_interpolate {catalog : Catalog} (h : catalog.IsRead) (key locale : String)
    (params : Members Json) :
    catalog.message key params locale = interpolate (catalog.source key locale) params := by
  unfold message source interpolate
  cases hfound : catalog.template? key locale with
  | none => rfl
  | some template =>
      show template.fill params = (ofText (String.ofList template.text).toList).fill params
      rw [String.toList_ofList, ofText_of_template? h hfound]

end Catalog

/-! ## One substitution -/

/-- Interpolating a text is one substitution in its only split: what comes of it is a text
    in the place of each piece, and parameters that no hole is named for count for
    nothing, be they bound or changed. -/
structure SubstitutesOnce (source : String) (template : Template) : Prop where
  split : IsSplit source.toList template
  unique : ∀ other, IsSplit source.toList other → other = template
  filled : ∀ params message, interpolate source params = message
    ↔ ∃ parts, List.Forall₂ (Becomes params) template parts ∧ String.ofList parts.flatten = message
  unused : ∀ params name value, name ∉ template.holes →
    interpolate source (Members.put params name value) = interpolate source params
  looked : ∀ params others,
    (∀ name ∈ template.holes, Members.valueOf? params name = Members.valueOf? others name) →
      interpolate source params = interpolate source others

/-- **INTERPOLATION IS ONE SUBSTITUTION**, from left to right, whatever the text and the
    parameters; what stands for a parameter that is no string is read as the parameter
    again; and the messages of a catalog are interpolated texts. -/
theorem interpolation_substitutes_once :
    (∀ source, ∃ template, SubstitutesOnce source template)
      ∧ (∀ (params : Members Json) (name : String) (value : Json) (text : Chars),
          Members.valueOf? params name = some value → value.isString = false →
            value.IntegersFit → value.NamesDiffer →
            Becomes params (.hole name) text → Json.ofText (String.ofList text) = .ok value)
      ∧ ∀ (config : Config) (key locale : String) (params : Members Json),
          (Catalog.ofConfig config).message key params locale
            = interpolate ((Catalog.ofConfig config).source key locale) params := by
  refine ⟨fun source => ?_, fun _ _ _ _ => ofText_of_becomes, fun config key locale params => ?_⟩
  · have hsplit := isSplit_ofText source.toList
    refine ⟨ofText source.toList, hsplit, fun other h => isSplit_unique h hsplit, fun params message => fill_eq_iff,
      fun params name value hname => ?_, fun params others h => fill_congr h⟩
    refine fill_congr fun other hother => Members.valueOf?_put_of_ne params value ?_
    rintro rfl
    exact hname hother
  · exact Catalog.message_eq_interpolate (Catalog.isRead_ofConfig config) key locale params

/-- An object with a name and a text that have to be escaped. -/
def objectParam : Json := .object [("a\n", .string "\x7b\"\x7d"), ("b", .integer (-7))]

/-- How it is written. -/
def objectText : String := "\x7b\"a\\n\":\"\x7b\\\"\x7d\",\"b\":-7\x7d"

theorem object_param_is_read :
    objectParam.IntegersFit ∧ objectParam.NamesDiffer
      ∧ interpolate (String.ofList (holeText ['v'])) [("v", objectParam)] = objectText
      ∧ Json.ofText objectText = .ok objectParam := by
  have hseven : (Json.integer (-7)).IntegersFit := by
    refine .of_parts_eq_nil ?_ rfl
    rintro _ ⟨⟩
    decide
  have hfit : objectParam.IntegersFit :=
    .intro nofun (List.forall_mem_cons.2 ⟨.of_parts_eq_nil nofun rfl, List.forall_mem_singleton.2 hseven⟩)
  have hnames : objectParam.NamesDiffer :=
    .intro (by decide) (List.forall_mem_cons.2 ⟨.of_parts_eq_nil (by decide) rfl,
      List.forall_mem_singleton.2 (.of_parts_eq_nil (by decide) rfl)⟩)
  have hread := interpolation_substitutes_once.2.1 [("v", objectParam)] "v" objectParam
    objectParam.render.toList rfl rfl hfit hnames (.json rfl rfl)
  have hrender : objectParam.render = objectText := by decide +kernel
  rw [String.ofList_toList, hrender] at hread
  exact ⟨hfit, hnames, by decide +kernel, hread⟩

/-- What fills a hole is not read again, though it looks like a hole. -/
example : interpolate (String.ofList ('{' :: holeText ['a']))
    [("a", .string (String.ofList (holeText ['b']))), ("b", .integer 7)]
      = String.ofList ('{' :: holeText ['b']) := by
  cbv

end Conform

import Conform.Proofs.Transparency

/-! # Relocation — the place of a text shows in its error only

    A text is read at a place, and the place is handed down: the items of an array
    stand one step further.  Nothing but an error ever mentions it.  So the same text
    at another place comes to the same tree, leaves the same state, and where it is
    refused, the error is the same with the new place in front of its own.

    A family of computations, one for each place, FOLLOWS ITS PLACE when this holds of
    it; following passes through every step of a reading, and reading and compiling a
    text do it (`followsPlace_read`, `followsPlace_compileText`). -/

namespace Conform

/-! ## Errors that name a place -/

namespace Error

/-- The place that the error names, if it is one that a specification is refused with
    at a place. -/
def site? : Error → Option String
  | .grammar path _ _ => some path
  | .unknownType path _ => some path
  | _ => none

/-- The same error with `outer` in front of the place that it names. -/
def under (outer : String) : Error → Error
  | .grammar path token fault => .grammar (outer ++ path) token fault
  | .unknownType path name => .unknownType (outer ++ path) name
  | error => error

end Error

/-! ## Following a place -/

section Following

variable {σ α β : Type}

/-- What a computation came to, with `outer` in front of the place of its error. -/
def relocated (outer : String) (result : Except Error α × σ) : Except Error α × σ :=
  (result.1.mapError (Error.under outer), result.2)

/-- **FOLLOWING A PLACE**: every error names a place, and at a place further down it is
    the same but for what stands in front; values and states do not depend on the
    place. -/
structure FollowsPlace (x : String → ExceptT Error (StateM σ) α) : Prop where
  names : ∀ path state error, ((x path).run state).1 = .error error → error.site?.isSome
  follows : ∀ outer path state,
    (x (outer ++ path)).run state = relocated outer ((x path).run state)

namespace FollowsPlace

theorem pure (a : α) :
    FollowsPlace fun _ : String => (Pure.pure a : ExceptT Error (StateM σ) α) where
  names _ _ _ h := nomatch h
  follows _ _ _ := rfl

/-- A computation that always yields a value follows every place. -/
theorem of_ok {x : ExceptT Error (StateM σ) α} (h : ∀ state, ∃ a, (x.run state).1 = .ok a) :
    FollowsPlace fun _ => x where
  names := by
    intro _ state error herror
    obtain ⟨a, ha⟩ := h state
    exact nomatch ha.symm.trans herror
  follows := by
    intro outer _ state
    obtain ⟨a, ha⟩ := h state
    refine Prod.ext ?_ rfl
    show (x.run state).1 = ((x.run state).1).mapError _
    rw [ha]
    rfl

/-- An error that names the place where it is thrown follows it. -/
theorem throw {error : String → Error} (hnames : ∀ path, (error path).site?.isSome)
    (hfollows : ∀ outer path, error (outer ++ path) = (error path).under outer) :
    FollowsPlace fun path =>
      (MonadExcept.throw (error path) : ExceptT Error (StateM σ) α) where
  names path state thrown h := by
    obtain rfl : error path = thrown := Except.error.inj h
    exact hnames path
  follows outer path state := by
    show (Except.error (error (outer ++ path)), state) = (Except.error _, state)
    rw [hfollows]

/-- One step after another: the first error is that of the two together. -/
theorem bind {x : String → ExceptT Error (StateM σ) α}
    {f : α → String → ExceptT Error (StateM σ) β} (hx : FollowsPlace x)
    (hf : ∀ a, FollowsPlace (f a)) : FollowsPlace fun path => x path >>= fun a => f a path where
  names := by
    intro path state error h
    have herror : (ExceptT.bindCont (fun a => f a path) ((x path).run state).1
      ((x path).run state).2).1 = .error error := h
    cases hfirst : ((x path).run state).1 with
    | error first =>
        rw [hfirst] at herror
        obtain rfl : first = error := Except.error.inj herror
        exact hx.names path state first hfirst
    | ok a =>
        rw [hfirst] at herror
        exact (hf a).names path _ error herror
  follows := by
    intro outer path state
    show ExceptT.bindCont (fun a => f a (outer ++ path)) ((x (outer ++ path)).run state).1
        ((x (outer ++ path)).run state).2
      = relocated outer (ExceptT.bindCont (fun a => f a path) ((x path).run state).1
          ((x path).run state).2)
    rw [hx.follows outer path state]
    rcases (x path).run state with ⟨_ | a, after⟩
    · rfl
    · exact (hf a).follows outer path after

/-- What follows its place follows it from a place derived from it, if deriving leaves
    alone what stands in front. -/
theorem derived {x : String → ExceptT Error (StateM σ) α} (hx : FollowsPlace x)
    {place : String → String} (hplace : ∀ outer path, place (outer ++ path) = outer ++ place path) :
    FollowsPlace fun path => x (place path) where
  names path := hx.names (place path)
  follows outer path state := by
    rw [hplace]
    exact hx.follows outer (place path) state

end FollowsPlace

end Following

/-! ## Reading -/

namespace Dsl

open Conform.Text (Chars)

theorem itemsPath_append (outer path : String) :
    itemsPath (outer ++ path) = outer ++ itemsPath path := String.append_assoc

theorem followsPlace_fault {α : Type} (fault : Fault) :
    FollowsPlace fun path => (throw (fault.at path) : Naming α) :=
  .throw (fun _ => rfl) fun _ _ => rfl

/-- An outcome at hand is reported at the path that is handed over. -/
theorem followsPlace_settle {α : Type} (value : Except Fault α) :
    FollowsPlace fun path => settle path value := by
  cases value with
  | ok value => exact .pure value
  | error fault => exact followsPlace_fault fault

/-- A name that cannot be resolved is reported at the path. -/
theorem followsPlace_unresolved (name : Chars) :
    FollowsPlace fun path => (throw (unresolved path name) : Naming Node) := by
  unfold unresolved
  by_cases h : isMalformedName name = true
  · simp only [if_pos h]
    exact followsPlace_fault _
  · simp only [if_neg h]
    exact .throw (fun _ => rfl) fun _ _ => rfl

/-- Resolving a name follows the path. -/
theorem followsPlace_resolve (name : Chars) : FollowsPlace fun path => resolve path name := by
  unfold resolve
  cases BaseType.ofName? (String.ofList name) with
  | some base => exact .pure _
  | none =>
      -- asking the registry does not fail, only its having no answer does
      have hregistered : FollowsPlace fun _ => registered? (String.ofList name) := by
        refine .of_ok fun names => ?_
        rcases registered?_run (String.ofList name) names with ⟨node, registry, hr⟩ | hr
        · exact ⟨_, congrArg Prod.fst hr⟩
        · exact ⟨_, congrArg Prod.fst hr⟩
      refine hregistered.bind fun found => ?_
      cases found with
      | some node => exact .pure node
      | none => exact followsPlace_unresolved name

mutual

/-- **THE TREE OF AN OUTLINE FOLLOWS ITS PLACE.** -/
theorem Outline.followsPlace_node : ∀ outline : Outline, FollowsPlace fun path => outline.node path
  | .fault flaw => followsPlace_fault flaw
  | .named required name => by
      unfold Outline.node
      exact (followsPlace_resolve name).bind fun _ => .pure _
  | .choice required hint body => by
      unfold Outline.node
      exact (followsPlace_settle _).bind fun _ => .pure _
  | .bounded required name body rest => by
      unfold Outline.node
      exact (followsPlace_resolve name).bind fun _ =>
        (followsPlace_settle _).bind fun _ => .pure _
  | .array required clause none => by
      unfold Outline.node
      exact (followsPlace_settle _).bind fun _ => .pure _
  | .array required clause (some items) => by
      unfold Outline.node
      exact ((Outline.followsPlace_node items).derived itemsPath_append).bind fun _ =>
        (followsPlace_settle _).bind fun _ => .pure _
  | .union required members => by
      unfold Outline.node
      exact (Outline.followsPlace_nodes members).bind fun _ => .pure _
termination_by structural outline => outline

/-- The nodes of several outlines follow the path, one after another. -/
theorem Outline.followsPlace_nodes :
    ∀ outlines : List Outline, FollowsPlace fun path => Outline.nodes path outlines
  | [] => by
      unfold Outline.nodes
      exact .pure _
  | outline :: rest => by
      unfold Outline.nodes
      exact (Outline.followsPlace_node outline).bind fun _ =>
        (Outline.followsPlace_nodes rest).bind fun _ => .pure _
termination_by structural outlines => outlines

end

/-- Reading a text follows its place. -/
theorem followsPlace_read (source : String) : FollowsPlace fun path => read path source :=
  Outline.followsPlace_node (Outline.ofText source.toList)

end Dsl

/-! ## Compiling -/

namespace Compiler

theorem cached?_run_ok (key : String) (compiler : Compiler) :
    ∃ found, ((cached? key).run compiler).1 = .ok found := by
  cases hc : compiler.cache with
  | none => exact ⟨_, congrArg Prod.fst (cached?_run_none key hc)⟩
  | some cache => exact ⟨_, congrArg Prod.fst (cached?_run_some key hc)⟩

/-- Reading a text follows the path, and is the same at all of them but for the faults. -/
theorem followsPlace_readText (source : String) : FollowsPlace fun path => readText path source where
  names := by
    intro path compiler error h
    rw [readText_run] at h
    rcases hread : (Dsl.read path source).run ⟨compiler.registry, compiler.attached, false⟩
      with ⟨first | node, names⟩
    · rw [hread] at h
      obtain rfl : first = error := Except.error.inj h
      exact (Dsl.followsPlace_read source).names path _ first (congrArg Prod.fst hread)
    · rw [hread] at h
      exact nomatch h
  follows := by
    intro outer path compiler
    rw [readText_run, readText_run, (Dsl.followsPlace_read source).follows outer path]
    rcases (Dsl.read path source).run ⟨compiler.registry, compiler.attached, false⟩
      with ⟨_ | node, names⟩
    · rfl
    · rfl

/-- **COMPILING A TEXT FOLLOWS ITS PLACE**, also through the cache: only trees are
    remembered, and an error is found anew. -/
theorem followsPlace_compileText (source : String) :
    FollowsPlace fun path => compileText path source := by
  unfold compileText
  refine (FollowsPlace.of_ok (cached?_run_ok (textKey source))).bind fun found => ?_
  cases found with
  | some tree => exact .pure tree.node
  | none =>
      refine (followsPlace_readText source).bind ?_
      rintro ⟨node, consulted⟩
      cases consulted with
      | true => exact .pure node
      | false => exact .of_ok fun _ => ⟨node, rfl⟩

end Compiler

end Conform

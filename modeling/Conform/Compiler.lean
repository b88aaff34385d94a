import Conform.Spec
import Conform.Cache
import Conform.Dsl.Tree
import Conform.Record

/-! # The compiler — from specifications to trees

    A compiler has a registry, which it may be attached to, and perhaps a cache.
    Trees of texts are cached under the text unless the registry answered for
    them; trees of keyed specifications are cached under their key.  The two
    kinds of keys never meet (`textKey_ne_callerKey`).

    Every tree that is handed out by key has a handle, which is its identity. -/

namespace Conform

/-- A tree with its identity. -/
structure Tree where
  node : Node
  handle : Nat

/-- A compiler with what it remembers; `now` is the time in milliseconds. -/
structure Compiler where
  registry : Registry := {}
  attached : Bool := false
  cache : Option (Cache Tree) := none
  now : Nat := 0
  issued : Nat := 0

/-- Computations of a compiler.  What it remembers survives an error. -/
abbrev Compiling := ExceptT Error (StateM Compiler)

namespace Compiler

/-! ## The cache -/

/-- The key of a text. -/
def textKey (source : String) : String := "dsl:" ++ source

/-- The key of a caller's key. -/
def callerKey (key : String) : String := "key:" ++ key

/-- A text and a caller's key never share an entry. -/
theorem textKey_ne_callerKey (source key : String) : textKey source ≠ callerKey key := by
  intro h
  have h := congrArg String.toList h
  simp only [textKey, callerKey, String.toList_append] at h
  exact absurd (List.cons.inj h).1 (by decide)

/-- Looks a key up in the cache, if there is one. -/
def cached? (key : String) : Compiling (Option Tree) := do
  let compiler ← get
  match compiler.cache with
  | none => return none
  | some cache =>
      let (found, cache) := cache.lookup compiler.now key
      set { compiler with cache := some cache }
      return found

/-- Gives a node an identity of its own. -/
def issue (node : Node) : Compiling Tree := do
  let compiler ← get
  set { compiler with issued := compiler.issued + 1 }
  return ⟨node, compiler.issued⟩

/-- Puts a tree into the cache, if there is one. -/
def remember (key : String) (tree : Tree) : Compiling Unit :=
  modify fun compiler =>
    { compiler with cache := compiler.cache.map fun cache => cache.insert compiler.now key tree }

/-! ## Texts -/

/-- Reads a text with the registry; says also whether the registry answered. -/
def readText (path source : String) : Compiling (Node × Bool) := do
  let compiler ← get
  let (outcome, names) := (Dsl.read path source).run ⟨compiler.registry, compiler.attached, false⟩
  set { compiler with registry := names.registry }
  match outcome with
  | .ok node => return (node, names.consulted)
  | .error error => throw error

/-- The tree of a text.  It is remembered unless the registry answered. -/
def compileText (path source : String) : Compiling Node := do
  match ← cached? (textKey source) with
  | some tree => return tree.node
  | none =>
      let (node, consulted) ← readText path source
      if !consulted then remember (textKey source) (← issue node)
      return node

/-! ## Specifications -/

/-- The place of a member. -/
def memberPath (path name : String) : String := if path = "" then name else path ++ "." ++ name

/-- The place of a case. -/
def casePath (path key : String) : String := path ++ "<" ++ key ++ ">"

/-- Whether a reference to a field lacks a name. -/
def isMalformedReference (reference : String) : Bool :=
  (Json.referenceNames reference).any fun name => name = ""

/-- Refuses a reference that lacks a name. -/
def checkReference (path reference : String) : Compiling Unit :=
  if isMalformedReference reference then
    throw (.grammar path reference .malformedReference)
  else return ()

mutual

/-- Compiles a specification at a place. -/
def compileAt (path : String) : Spec → Compiling Node
  | .text source => compileText path source
  | .object fields => do
      let fields ← compileFields path fields
      return .object {} fields
  | .array items => do
      let items ← compileAt (Dsl.itemsPath path) items
      return .array {} (some items)
  | .field field => do
      let node ← compileText path field.base
      ExceptT.mk (return field.dress path node)
  | .node node => return node
  | .matching reference cases => do
      checkReference path reference
      let cases ← compileCases path [] cases
      return .matching {} reference cases
  | .switch field yes none => do
      checkReference path field
      let yes ← compileAt path yes
      return .switch {} field yes none
  | .switch field yes (some no) => do
      checkReference path field
      let yes ← compileAt path yes
      let no ← compileAt path no
      return .switch {} field yes (some no)
  | .chain (.error fault) => throw (.sequence fault)
  | .chain (.ok ⟨entries, fallback⟩) => do
      let entries ← compileEntries path entries
      let fallback ← compileFallback path fallback
      return .chain {} ⟨entries, fallback⟩
  | .unsupported value => throw (.grammar path value.render .unsupportedValue)
termination_by structural spec => spec

/-- Compiles the fields of an object, in order. -/
def compileFields (path : String) : List (String × Spec) → Compiling (List (String × Node))
  | [] => return []
  | (name, spec) :: rest => do
      let node ← compileAt (memberPath path name) spec
      let fields ← compileFields path rest
      return (name, node) :: fields
termination_by structural fields => fields

/-- Compiles the cases of a branch, in order; `seen` are the keys before. -/
def compileCases (path : String) (seen : List String) :
    List (String × Spec) → Compiling (List (String × Node))
  | [] => return []
  | (key, spec) :: rest => do
      let node ← compileAt (casePath path key) spec
      if seen.contains key then throw (.grammar path key .duplicateCase)
      let cases ← compileCases path (key :: seen) rest
      return (key, node) :: cases
termination_by structural cases => cases

/-- Compiles the targets of the entries of a chain, in order. -/
def compileEntries (path : String) :
    List (Chain.Entry Spec) → Compiling (List (Chain.Entry Node))
  | [] => return []
  | ⟨kind, conditions, target, message, throws⟩ :: rest => do
      let target ← compileTarget path target
      let entries ← compileEntries path rest
      return ⟨kind, conditions, target, message, throws⟩ :: entries
termination_by structural entries => entries

/-- Compiles what an entry hands over, if anything. -/
def compileTarget (path : String) : Option Spec → Compiling (Option Node)
  | none => return none
  | some spec => some <$> compileAt path spec
termination_by structural target => target

/-- Compiles the target of a fallback, if it has one. -/
def compileFallback (path : String) : Chain.Fallback Spec → Compiling (Chain.Fallback Node)
  | .undefined => return .undefined
  | .nothing => return .nothing
  | .target spec => .target <$> compileAt path spec
termination_by structural fallback => fallback

end

/-- Compiles a specification. -/
def compile (spec : Spec) : Compiling Node := compileAt "" spec

/-- Compiles a specification once per key; a later call with the key gives the
    same tree without looking at the specification. -/
def compileKeyed (key : String) (spec : Spec) : Compiling Tree := do
  match ← cached? (callerKey key) with
  | some tree => return tree
  | none =>
      let node ← compile spec
      let tree ← issue node
      remember (callerKey key) tree
      return tree

/-- The tree of a specification for a compiler without registry and cache. -/
def compiled (spec : Spec) : Except Error Node := ((compile spec).run {}).1

/-! ## Registering, and time -/

/-- Registers the tree of a specification. -/
def register (name : String) (spec : Spec) : Compiling Unit := do
  let node ← compile spec
  modify fun compiler => { compiler with registry := compiler.registry.register name node }

/-- Takes a name out of the registry; says whether it was there. -/
def unregister (name : String) : Compiling Bool := do
  let compiler ← get
  set { compiler with registry := compiler.registry.unregister name }
  return compiler.registry.has name

/-- The tree under a registered name. -/
def resolve? (name : String) : Compiling (Option Node) := do
  let compiler ← get
  let (node, registry) := compiler.registry.resolve? name
  set { compiler with registry := registry }
  return node

/-- Forgets all cached trees. -/
def clearCache : Compiling Unit :=
  modify fun compiler => { compiler with cache := compiler.cache.map Cache.clear }

/-- Lets time pass. -/
def pass (milliseconds : Nat) : Compiling Unit :=
  modify fun compiler => { compiler with now := compiler.now + milliseconds }

/-- How many entries the cache has, if there is one. -/
def cacheSize? (compiler : Compiler) : Option Nat := compiler.cache.map Cache.size

end Compiler

end Conform

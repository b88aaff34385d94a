import Conform.Proofs.Transparency

/-! # Keyed calls — handing out trees by key

    Every tree that goes into the cache has a handle of its own.  A LEDGER lists the
    trees that have been made so far, each with the key that it was made for: what the
    cache holds is listed, and no two listed trees have one handle.  Compiling a
    specification adds texts to it and nothing else, and a call with a key adds the one
    tree that it makes.

    So of a call with a key only three things can come (`KeyedAnswer`): a tree that an
    earlier call with the key handed out, a tree of its own that is what compiling the
    specification gives, or the error that compiling it gives. -/

namespace Conform.Compiler

variable {α β : Type}

theorem callerKey_injective {key other : String} (h : callerKey key = callerKey other) : key = other := by
  have h1 := congrArg String.toList h
  simp only [callerKey, String.toList_append, List.append_cancel_left_eq] at h1
  exact String.toList_injective h1

/-! ## The ledger -/

/-- The list has every tree in the cache under its key, and no handle twice. -/
structure Ledger (compiler : Compiler) (made : List (String × Tree)) : Prop where
  cached : ∀ cache, compiler.cache = some cache →
    ∀ entry ∈ cache.entries, (entry.key, entry.value) ∈ made
  below : ∀ one ∈ made, one.2.handle < compiler.issued
  apart : ∀ one ∈ made, ∀ other ∈ made, one.2.handle = other.2.handle → one = other

/-- The trees are made for texts. -/
def OfTexts (made : List (String × Tree)) : Prop := ∀ one ∈ made, ∃ source, one.1 = textKey source

namespace Ledger

variable {compiler after : Compiler} {made : List (String × Tree)}

/-- The cache may lose entries. -/
theorem forget (h : Ledger compiler made) (hissued : after.issued = compiler.issued)
    (hentries : ∀ cache, after.cache = some cache →
      ∀ entry ∈ cache.entries, ∃ before, compiler.cache = some before ∧ entry ∈ before.entries) :
    Ledger after made where
  cached cache hcache entry hentry := by
    obtain ⟨before, hbefore, hmem⟩ := hentries cache hcache entry hentry
    exact h.cached before hbefore entry hmem
  below := by
    rw [hissued]
    exact h.below
  apart := h.apart

theorem congr (h : Ledger compiler made) (hcache : after.cache = compiler.cache)
    (hissued : after.issued = compiler.issued) : Ledger after made :=
  h.forget hissued fun cache hafter _ hentry => ⟨cache, hcache ▸ hafter, hentry⟩

/-- What is not in the cache may be crossed out. -/
theorem cross (h : Ledger compiler made) {fewer : List (String × Tree)} (hfewer : ∀ one ∈ fewer, one ∈ made)
    (hcached : ∀ cache, compiler.cache = some cache →
      ∀ entry ∈ cache.entries, (entry.key, entry.value) ∈ fewer) : Ledger compiler fewer where
  cached := hcached
  below one hone := h.below one (hfewer one hone)
  apart one hone other hother := h.apart one (hfewer one hone) other (hfewer other hother)

/-- Looking up a key leaves the ledger, as it only forgets entries. -/
theorem lookUp (h : Ledger compiler made) (key : String) :
    Ledger ((cached? key).run compiler).2 made := by
  cases hcache : compiler.cache with
  | none =>
      rw [cached?_run_none key hcache]
      exact h
  | some cache =>
      rw [cached?_run_some key hcache]
      refine h.forget rfl ?_
      rintro _ ⟨⟩ entry hentry
      exact ⟨cache, hcache, Cache.mem_of_mem_lookup hentry⟩

/-- **A TREE THAT IS PUT INTO THE CACHE** has a handle that no tree had before. -/
theorem add (h : Ledger compiler made) (key : String) (node : Node) :
    Ledger ((issue node >>= remember key).run compiler).2 (made ++ [(key, ⟨node, compiler.issued⟩)]) := by
  have hnew : ∀ one ∈ made, one.2.handle ≠ compiler.issued := fun one hone =>
    Nat.ne_of_lt (h.below one hone)
  refine ⟨?_, ?_, ?_⟩
  · intro after hafter entry hentry
    obtain ⟨cache, hcache, rfl⟩ := Option.map_eq_some_iff.1 hafter
    rcases Cache.mem_of_mem_insert hentry with rfl | hold
    · exact List.mem_append_right _ List.mem_cons_self
    · exact List.mem_append_left _ (h.cached cache hcache entry hold)
  · refine List.forall_mem_append.2 ⟨fun one hone => ?_, List.forall_mem_singleton.2 ?_⟩
    · exact Nat.lt_succ_of_lt (h.below one hone)
    · exact Nat.lt_succ_self _
  · -- the old ones are apart, and the new one has a handle that none of them has
    intro one hone other hother heq
    rcases List.mem_append.1 hone with hone | hone
    · rcases List.mem_append.1 hother with hother | hother
      · exact h.apart one hone other hother heq
      · obtain rfl := List.mem_singleton.1 hother
        exact absurd heq (hnew one hone)
    · obtain rfl := List.mem_singleton.1 hone
      rcases List.mem_append.1 hother with hother | hother
      · exact absurd heq.symm (hnew other hother)
      · exact (List.mem_singleton.1 hother).symm

end Ledger

/-- The computation makes trees for texts only. -/
def MakesTexts (x : Compiling α) : Prop :=
  ∀ compiler made, Ledger compiler made →
    ∃ texts, OfTexts texts ∧ Ledger (x.run compiler).2 (made ++ texts)

/-- What changes neither the cache nor the handles makes no texts. -/
theorem makesTexts_of_same {x : Compiling α}
    (h : ∀ compiler, (x.run compiler).2.cache = compiler.cache
      ∧ (x.run compiler).2.issued = compiler.issued) : MakesTexts x := by
  intro compiler made hledger
  refine ⟨[], nofun, ?_⟩
  rw [List.append_nil]
  exact hledger.congr (h compiler).1 (h compiler).2

/-- The texts of two computations in a row are those of both. -/
theorem MakesTexts.bind {x : Compiling α} {f : α → Compiling β} (hx : MakesTexts x)
    (hf : ∀ a, MakesTexts (f a)) : MakesTexts (x >>= f) := by
  intro compiler made hledger
  obtain ⟨texts, htexts, hafter⟩ := hx compiler made hledger
  rw [bind_run]
  rcases hrun : x.run compiler with ⟨_ | a, after⟩
  · rw [hrun] at hafter
    exact ⟨texts, htexts, hafter⟩
  · rw [hrun] at hafter
    obtain ⟨more, hmore, hlast⟩ := hf a after _ hafter
    refine ⟨texts ++ more, List.forall_mem_append.2 ⟨htexts, hmore⟩, ?_⟩
    rw [← List.append_assoc]
    exact hlast

theorem makesTexts_readText (path source : String) : MakesTexts (readText path source) := by
  refine makesTexts_of_same fun compiler => ?_
  rw [readText_run]
  rcases (Dsl.read path source).run ⟨compiler.registry, compiler.attached, false⟩ with ⟨_ | node, names⟩
  · exact ⟨rfl, rfl⟩
  · exact ⟨rfl, rfl⟩

/-- **COMPILING A TEXT MAKES ENTRIES UNDER KEYS OF TEXTS ONLY.** -/
theorem makesTexts_compileText (path source : String) : MakesTexts (compileText path source) := by
  have hcached : MakesTexts (cached? (textKey source)) := by
    intro compiler made hledger
    refine ⟨[], nofun, ?_⟩
    rw [List.append_nil]
    exact hledger.lookUp _
  have hadd : ∀ node, MakesTexts (issue node >>= remember (textKey source)) := by
    intro node compiler made hledger
    exact ⟨[(textKey source, ⟨node, compiler.issued⟩)], List.forall_mem_singleton.2 ⟨source, rfl⟩,
      hledger.add (textKey source) node⟩
  have hpure : ∀ node, MakesTexts (pure node : Compiling Node) := fun node =>
    makesTexts_of_same fun _ => ⟨rfl, rfl⟩
  unfold compileText
  refine hcached.bind fun found => ?_
  cases found with
  | some tree => exact hpure tree.node
  | none =>
      refine (makesTexts_readText path source).bind ?_
      rintro ⟨node, consulted⟩
      cases consulted with
      | true => exact hpure node
      | false =>
          show MakesTexts ((issue node >>= remember (textKey source)) >>= fun _ => pure node)
          exact (hadd node).bind fun _ => hpure node

/-- Every step of compiling a schema makes entries under keys of texts only. -/
theorem stepwise_makesTexts : Stepwise fun _ => MakesTexts where
  pure _ := makesTexts_of_same fun _ => ⟨rfl, rfl⟩
  throw _ := makesTexts_of_same fun _ => ⟨rfl, rfl⟩
  bind := MakesTexts.bind
  text := makesTexts_compileText

/-- **COMPILING MAKES TREES FOR TEXTS ONLY**, whether it succeeds or fails. -/
theorem makesTexts_compile (spec : Spec) : MakesTexts (compile spec) :=
  stepwise_makesTexts.compileAt "" spec

/-! ## A call with a key -/

/-- A call with a key asks the cache, and compiles where nothing is found. -/
theorem compileKeyed_run (key : String) (spec : Spec) (compiler : Compiler) :
    (compileKeyed key spec).run compiler
      = match (cached? (callerKey key)).run compiler with
        | (.ok (some tree), after) => (.ok tree, after)
        | (.ok none, after) =>
            match (compile spec).run after with
            | (.ok node, later) =>
                (.ok ⟨node, later.issued⟩, ((issue node >>= remember (callerKey key)).run later).2)
            | (.error error, later) => (.error error, later)
        | (.error error, after) => (.error error, after) := by
  unfold compileKeyed
  rw [bind_run]
  rcases (cached? (callerKey key)).run compiler with ⟨_ | _ | tree, after⟩
  · rfl
  · show (compile spec >>= _ : Compiling Tree).run after = _
    rw [bind_run]
    dsimp only
    rcases (compile spec).run after with ⟨_ | node, later⟩
    · rfl
    · rfl
  · rfl

/-- A look into the cache changes nothing else, and gives back an entry under the key or
    leaves none there. -/
theorem cached?_run (key : String) {compiler after : Compiler} {outcome : Except Error (Option Tree)}
    (h : (cached? key).run compiler = (outcome, after)) :
    ∃ found, outcome = .ok found
      ∧ after.registry = compiler.registry ∧ after.attached = compiler.attached
      ∧ (∀ tree ∈ found, ∃ cache, compiler.cache = some cache
          ∧ ∃ entry ∈ cache.entries, entry.key = key ∧ entry.value = tree)
      ∧ (found = none → ∀ cache, after.cache = some cache → ∀ entry ∈ cache.entries, entry.key ≠ key) := by
  cases hcache : compiler.cache with
  | none =>
      rw [cached?_run_none key hcache] at h
      obtain ⟨rfl, rfl⟩ := Prod.mk.inj h
      refine ⟨none, rfl, rfl, rfl, nofun, ?_⟩
      intro _ cache hsome
      rw [hcache] at hsome
      cases hsome
  | some cache =>
      rw [cached?_run_some key hcache] at h
      obtain ⟨rfl, rfl⟩ := Prod.mk.inj h
      refine ⟨_, rfl, rfl, rfl, ?_, ?_⟩
      · intro tree htree
        exact ⟨cache, rfl, Cache.mem_of_lookup_eq_some htree⟩
      · rintro hnone _ ⟨⟩ entry hentry
        exact Cache.key_ne_of_mem_lookup hnone hentry

/-- No tree that is in the cache or was handed out has the handle, except for the key. -/
structure OnlyFor (compiler : Compiler) (past : List (String × Tree)) (key : String) (handle : Nat) :
    Prop where
  cached : ∀ cache, compiler.cache = some cache →
    ∀ entry ∈ cache.entries, entry.value.handle = handle → entry.key = callerKey key
  handed : ∀ one ∈ past, one.2.handle = handle → one.1 = key

/-- What a call with a key comes to, and what it leaves: the very tree that the key had
    before; or a new tree, which nothing else has, of what compiling gives; or the error
    that compiling gives, and nothing under the key. -/
inductive KeyedAnswer (compiler : Compiler) (past : List (String × Tree)) (key : String) (spec : Spec) :
    Except Error Tree × Compiler → Prop
  | again {tree : Tree} {after : Compiler} (hpast : (key, tree) ∈ past)
      (honly : OnlyFor compiler past key tree.handle) (hregistry : after.registry = compiler.registry) :
      KeyedAnswer compiler past key spec (.ok tree, after)
  | anew {tree : Tree} {after : Compiler}
      (hcompile : ((compile spec).run compiler).1 = .ok tree.node)
      (hpast : ∀ one ∈ past, one.2.handle ≠ tree.handle)
      (hcached : ∀ cache, compiler.cache = some cache →
        ∀ entry ∈ cache.entries, entry.value.handle ≠ tree.handle)
      (hregistry : after.registry = ((compile spec).run compiler).2.registry) :
      KeyedAnswer compiler past key spec (.ok tree, after)
  | refused {error : Error} {after : Compiler}
      (hcompile : ((compile spec).run compiler).1 = .error error)
      (hnone : ∀ cache, after.cache = some cache → ∀ entry ∈ cache.entries, entry.key ≠ callerKey key)
      (hregistry : after.registry = ((compile spec).run compiler).2.registry) :
      KeyedAnswer compiler past key spec (.error error, after)

/-- There is a ledger in which callers have exactly what was handed out. -/
def Recorded (compiler : Compiler) (past : List (String × Tree)) : Prop :=
  ∃ made, Ledger compiler made ∧ ∀ key tree, (callerKey key, tree) ∈ made ↔ (key, tree) ∈ past

theorem not_ofTexts_callerKey {texts : List (String × Tree)} (h : OfTexts texts) (key : String) (tree : Tree) :
    (callerKey key, tree) ∉ texts := by
  intro hmem
  obtain ⟨source, hsource⟩ := h _ hmem
  exact textKey_ne_callerKey source key hsource.symm

/-- A listed tree is only for the key that it was made for. -/
theorem Ledger.onlyFor {compiler : Compiler} {made past : List (String × Tree)} (h : Ledger compiler made)
    (hmade : ∀ key tree, (callerKey key, tree) ∈ made ↔ (key, tree) ∈ past) {key : String} {tree : Tree}
    (hmem : (callerKey key, tree) ∈ made) : OnlyFor compiler past key tree.handle where
  cached cache hcache entry hentry heq :=
    congrArg Prod.fst (h.apart _ (h.cached cache hcache entry hentry) _ hmem heq)
  handed one hone heq :=
    callerKey_injective (congrArg Prod.fst (h.apart _ ((hmade one.1 one.2).2 hone) _ hmem heq))

namespace Recorded

variable {compiler after : Compiler} {past : List (String × Tree)}

/-- Trees for texts are handed out to no caller. -/
theorem of_makesTexts (h : Recorded compiler past) {x : Compiling α} (hx : MakesTexts x) :
    Recorded (x.run compiler).2 past := by
  obtain ⟨made, hledger, hmade⟩ := h
  obtain ⟨texts, htexts, hafter⟩ := hx compiler made hledger
  refine ⟨made ++ texts, hafter, fun key tree => ?_⟩
  rw [List.mem_append, or_iff_left (not_ofTexts_callerKey htexts key tree)]
  exact hmade key tree

theorem forget (h : Recorded compiler past) (hissued : after.issued = compiler.issued)
    (hentries : ∀ cache, after.cache = some cache →
      ∀ entry ∈ cache.entries, ∃ before, compiler.cache = some before ∧ entry ∈ before.entries) :
    Recorded after past := by
  obtain ⟨made, hledger, hmade⟩ := h
  exact ⟨made, hledger.forget hissued hentries, hmade⟩

theorem congr (h : Recorded compiler past) (hcache : after.cache = compiler.cache)
    (hissued : after.issued = compiler.issued) : Recorded after past :=
  h.forget hissued fun cache hafter _ hentry => ⟨cache, hcache ▸ hafter, hentry⟩

end Recorded

/-- What is handed out for a key. -/
def handedOut (key : String) : Except Error Tree → List (String × Tree)
  | .ok tree => [(key, tree)]
  | .error _ => []

/-- Compiling comes to the same after a look into the cache. -/
theorem compile_after_look {compiler after : Compiler} (hfaithful : compiler.IsFaithful)
    (hafter : after.IsFaithful) (hregistry : after.registry = compiler.registry)
    (hattached : after.attached = compiler.attached) (spec : Spec) :
    ((compile spec).run after).1 = ((compile spec).run compiler).1
      ∧ ((compile spec).run after).2.registry = ((compile spec).run compiler).2.registry := by
  obtain ⟨hsame, hbeside⟩ := transparent_compile spec compiler _ (beside_uncached hfaithful)
  obtain ⟨hother, hotherBeside⟩ := transparent_compile spec after compiler.uncached
    ⟨hafter, rfl, hregistry, hattached⟩
  exact ⟨hother.trans hsame.symm, hotherBeside.registry.trans hbeside.registry.symm⟩

/-- Where nothing is under a key of a caller, compiling puts nothing there. -/
theorem no_entry_after_compile {compiler : Compiler} {made : List (String × Tree)}
    (hledger : Ledger compiler made) {key : String}
    (hnone : ∀ cache, compiler.cache = some cache → ∀ entry ∈ cache.entries, entry.key ≠ callerKey key)
    (spec : Spec) :
    ∀ cache, ((compile spec).run compiler).2.cache = some cache →
      ∀ entry ∈ cache.entries, entry.key ≠ callerKey key := by
  -- a ledger without the trees of the key is a ledger still
  have hcrossed : Ledger compiler (made.filter fun one => one.1 != callerKey key) := by
    refine hledger.cross (fun one hone => (List.mem_filter.1 hone).1) ?_
    intro cache hcache entry hentry
    exact List.mem_filter.2
      ⟨hledger.cached cache hcache entry hentry, bne_iff_ne.2 (hnone cache hcache entry hentry)⟩
  obtain ⟨texts, htexts, hafter⟩ := makesTexts_compile spec compiler _ hcrossed
  intro cache hcache entry hentry hkey
  rcases List.mem_append.1 (hafter.cached cache hcache entry hentry) with hold | hnew
  · exact bne_iff_ne.1 (List.mem_filter.1 hold).2 hkey
  · rw [hkey] at hnew
    exact not_ofTexts_callerKey htexts key _ hnew

/-- **A CALL WITH A KEY** hands out the tree of the key or a new one, from any compiler
    whose trees are recorded, and leaves them recorded. -/
theorem keyedAnswer_of_recorded {compiler : Compiler} {past : List (String × Tree)}
    (hrecorded : Recorded compiler past) (hfaithful : compiler.IsFaithful) (key : String) (spec : Spec) :
    KeyedAnswer compiler past key spec ((compileKeyed key spec).run compiler)
      ∧ Recorded ((compileKeyed key spec).run compiler).2
          (past ++ handedOut key ((compileKeyed key spec).run compiler).1) := by
  obtain ⟨made, hledger, hmade⟩ := hrecorded
  have hlooked := hledger.lookUp (callerKey key)
  have hstill := isFaithful_cached? (callerKey key) hfaithful
  rw [compileKeyed_run]
  rcases hrun : (cached? (callerKey key)).run compiler with ⟨outcome, after⟩
  rw [hrun] at hlooked hstill
  obtain ⟨found, rfl, hregistry, hattached, hfound, hnone⟩ := cached?_run _ hrun
  cases found with
  | some tree =>
      -- found under the caller's key, so it was made for a caller, and for this one
      obtain ⟨cache, hcache, entry, hentry, hkey, rfl⟩ := hfound tree rfl
      have hmem := hledger.cached cache hcache entry hentry
      rw [hkey] at hmem
      have hpast := (hmade key entry.value).1 hmem
      refine ⟨.again hpast (hledger.onlyFor hmade hmem) hregistry, made, hlooked, fun other tree => ?_⟩
      -- what is handed out again was on the record before
      show _ ↔ _ ∈ past ++ [(key, entry.value)]
      rw [hmade, List.mem_append, List.mem_singleton]
      exact ⟨.inl, fun h => h.elim id fun heq => heq ▸ hpast⟩
  | none =>
      obtain ⟨houtcome, hleft⟩ := compile_after_look hfaithful hstill hregistry hattached spec
      obtain ⟨texts, htexts, hlater⟩ := makesTexts_compile spec after made hlooked
      have hempty := no_entry_after_compile hlooked (hnone rfl) spec
      have hcallers : ∀ other tree, (callerKey other, tree) ∈ made ++ texts ↔ (other, tree) ∈ past := by
        intro other tree
        rw [List.mem_append, or_iff_left (not_ofTexts_callerKey htexts other tree)]
        exact hmade other tree
      dsimp only
      rcases hcompile : (compile spec).run after with ⟨_ | node, later⟩
      · rw [hcompile] at houtcome hleft hlater hempty
        refine ⟨.refused houtcome.symm hempty hleft, made ++ texts, hlater, fun other tree => ?_⟩
        rw [handedOut, List.append_nil]
        exact hcallers other tree
      · rw [hcompile] at houtcome hleft hlater
        -- handles are given out in order, and compiling gave out some more
        have hnew : ∀ one ∈ made, one.2.handle ≠ later.issued := fun one hone =>
          Nat.ne_of_lt (hlater.below one (List.mem_append_left _ hone))
        refine ⟨.anew houtcome.symm ?_ ?_ hleft, _, hlater.add (callerKey key) node, fun other tree => ?_⟩
        · intro one hone
          exact hnew (callerKey one.1, one.2) ((hmade one.1 one.2).2 hone)
        · intro cache hcache entry hentry
          exact hnew (entry.key, entry.value) (hledger.cached cache hcache entry hentry)
        · rw [List.mem_append, hcallers, handedOut, List.mem_append, List.mem_singleton,
            List.mem_singleton, Prod.mk.injEq, Prod.mk.injEq]
          exact or_congr_right (and_congr_left' ⟨fun heq => callerKey_injective heq, congrArg callerKey⟩)

/-! ## Sessions -/

/-- What an operation hands out by key. -/
def handedBy (compiler : Compiler) : Action → List (String × Tree)
  | .compileKeyed key spec => handedOut key ((compileKeyed key spec).run compiler).1
  | _ => []

/-- What a session hands out by key, in order. -/
def handed (compiler : Compiler) : List Action → List (String × Tree)
  | [] => []
  | action :: rest => handedBy compiler action ++ handed (compiler.afterAction action) rest

/-- Nothing is recorded at first. -/
theorem recorded_fresh (registry : Registry) (attached : Bool) (capacity : Nat) (maxAge : Option Nat) :
    Recorded (fresh registry attached capacity maxAge) [] := by
  refine ⟨[], ⟨?_, nofun, nofun⟩, fun _ _ => iff_of_false nofun nofun⟩
  intro cache hcache entry hentry
  obtain rfl : Cache.empty capacity maxAge = cache := Option.some.inj hcache
  exact nomatch hentry

/-- **ONE ACTION KEEPS THE RECORD**, with what it hands over at the end. -/
theorem recorded_afterAction {compiler : Compiler} {past : List (String × Tree)}
    (h : Recorded compiler past) (hfaithful : compiler.IsFaithful) (action : Action) :
    Recorded (compiler.afterAction action) (past ++ handedBy compiler action) := by
  have hnothing : ∀ {after : Compiler}, Recorded after past → Recorded after (past ++ []) := by
    intro after hafter
    rw [List.append_nil]
    exact hafter
  cases action with
  | compileKeyed key spec => exact (keyedAnswer_of_recorded h hfaithful key spec).2
  | compile spec => exact hnothing (h.of_makesTexts (makesTexts_compile spec))
  | register name spec =>
      refine hnothing (h.of_makesTexts ((makesTexts_compile spec).bind fun node => ?_))
      exact makesTexts_of_same fun _ => ⟨rfl, rfl⟩
  | registerFactory name make => exact hnothing (h.congr rfl rfl)
  | unregister name => exact hnothing (h.congr rfl rfl)
  | pass milliseconds => exact hnothing (h.congr rfl rfl)
  | clearCache =>
      refine hnothing (h.forget rfl ?_)
      intro cache hcache entry hentry
      obtain ⟨before, -, rfl⟩ := Option.map_eq_some_iff.1 hcache
      exact nomatch hentry

/-- **EVERY SESSION KEEPS A RECORD** of what it handed out by key. -/
theorem recorded_afterSession {compiler : Compiler} {past : List (String × Tree)}
    (h : Recorded compiler past) (hfaithful : compiler.IsFaithful) (actions : List Action) :
    Recorded (compiler.afterSession actions) (past ++ handed compiler actions) := by
  induction actions generalizing compiler past with
  | nil =>
      rw [handed, List.append_nil]
      exact h
  | cons action rest ih =>
      have hafter := ih (recorded_afterAction h hfaithful action)
        (isFaithful_afterAction compiler action hfaithful)
      rw [List.append_assoc] at hafter
      exact hafter

end Conform.Compiler

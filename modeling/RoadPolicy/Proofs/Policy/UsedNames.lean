/-
Compiling looks up the words of the source and nothing else. Reading asks whether a word resolves,
lowering asks what it denotes, and both ask for words of the source only; so two registries that
agree on these words compile the source alike. Changing a registry in any other name, or adding
formulas to it, is never noticed.
-/
import RoadPolicy.Proofs.Policy.TidyCompile

namespace RoadPolicy

/-! ## The words of a source -/

/-- The word that a token is, if it is one. -/
def Token.word? (tok : Token) : Option String :=
  match tok.kind with
  | .word w => some w
  | _ => none

/-- The words of a source, in their order. -/
def sourceWords (source : String) : List String := (tokenize source).filterMap Token.word?

/-- Two functions of words agree on those of a token list. -/
def AgreeOnWords {α : Type} (tokens : List Token) (f g : String → α) : Prop :=
  ∀ tok ∈ tokens, ∀ w ∈ tok.word?, f w = g w

section

variable {α β : Type} {tokens : List Token} {f g : String → α}

theorem AgreeOnWords.mono {part : List Token} (h : AgreeOnWords tokens f g) (hpart : part ⊆ tokens) :
    AgreeOnWords part f g :=
  fun tok htok => h tok (hpart htok)

theorem AgreeOnWords.comp (h : AgreeOnWords tokens f g) (φ : α → β) :
    AgreeOnWords tokens (fun w => φ (f w)) (fun w => φ (g w)) :=
  fun tok htok w hw => congrArg φ (h tok htok w hw)

theorem agreeOnWords_tokenize {source : String} (h : ∀ w ∈ sourceWords source, f w = g w) :
    AgreeOnWords (tokenize source) f g :=
  fun tok htok w hw => h w (List.mem_filterMap.2 ⟨tok, htok, hw⟩)

end

/-! ## Reading -/

section

variable {resolves resolves' : String → Bool}

theorem leafOfWord?_congr {word : String} (h : resolves word = resolves' word) :
    leafOfWord? resolves word = leafOfWord? resolves' word := by
  rw [leafOfWord?, leafOfWord?, h]

/-- One token is read alike if its word is resolved alike. -/
theorem ParseState.step_congr (s : ParseState) {tok : Token} (h : ∀ w ∈ tok.word?, resolves w = resolves' w) :
    s.step resolves tok = s.step resolves' tok := by
  have hoperand : s.operand resolves tok = s.operand resolves' tok := by
    rcases tok with ⟨kind, span⟩
    cases kind with
    | word w => simp only [operand, leafOfWord?_congr (h w rfl)]
    | openParen | closeParen | comma => rfl
  rw [step, step, hoperand]

theorem ParseState.foldlM_step_congr {tokens : List Token} (h : AgreeOnWords tokens resolves resolves')
    (s : ParseState) : tokens.foldlM (step resolves) s = tokens.foldlM (step resolves') s := by
  induction tokens generalizing s with
  | nil => rfl
  | cons tok tokens ih =>
    rw [AgreeOnWords, List.forall_mem_cons] at h
    rw [List.foldlM_cons, List.foldlM_cons, step_congr s h.1]
    exact bind_congr fun s' => ih h.2 s'

theorem parseTokens_congr {tokens : List Token} (h : AgreeOnWords tokens resolves resolves') :
    parseTokens resolves tokens = parseTokens resolves' tokens := by
  rw [parseTokens, parseTokens, ParseState.foldlM_step_congr h]

end

/-! ## Lowering -/

section

variable {r s : Registry}

theorem Head.operand_congr (head : Head) (h : ∀ name, head = .symbol name → r.lookup name = s.lookup name)
    (span : Span) (args : List Operand) : head.operand r span args = head.operand s span args := by
  cases head with
  | symbol name => rw [operand, operand, h name rfl]
  | literal | marker | operator => rfl

/-- The name of a leaf is the word that was read. -/
theorem LeafWord.eq_of_symbol {resolves : String → Bool} {word name : String}
    (h : LeafWord resolves word (.symbol name)) : name = word := by
  cases h
  rfl

mutual

/-- What a token list derives is lowered alike if its words denote the same. -/
theorem Derives.lower_congr {resolves : String → Bool} : ∀ {tokens : List Token} {e : Expression},
    Derives resolves tokens e → AgreeOnWords tokens r.lookup s.lookup →
      ∀ base, (e.tree base).lower r = (e.tree base).lower s
  | _, _, @Derives.leaf _ word _ head _ hleaf, hagree, base => by
    have hname : ∀ name, head = .symbol name → r.lookup name = s.lookup name := by
      rintro name rfl
      rw [hleaf.eq_of_symbol]
      exact hagree _ List.mem_cons_self word rfl
    rw [Expression.tree, Expression.treeAll, Tree.lower, Tree.lower, Tree.lowerAll, Tree.lowerAll]
    exact bind_congr fun args => head.operand_congr hname _ args
  | _, _, @Derives.call _ op _ _ _ tokens _ hargs, hagree, base => by
    have hinner : AgreeOnWords tokens r.lookup s.lookup := hagree.mono
      (List.subset_cons_of_subset _ (List.subset_cons_of_subset _ (List.subset_append_left ..)))
    rw [Expression.tree, Tree.lower, Tree.lower, hargs.lower_congr hinner]
    exact bind_congr fun args => (Head.operator op).operand_congr (by simp) _ args

theorem DerivesArgs.lower_congr {resolves : String → Bool} : ∀ {tokens : List Token} {es : List Expression},
    DerivesArgs resolves tokens es → AgreeOnWords tokens r.lookup s.lookup →
      ∀ base, Tree.lowerAll r (Expression.treeAll base es) = Tree.lowerAll s (Expression.treeAll base es)
  | _, _, .one he, hagree, base => by
    rw [Expression.treeAll, Expression.treeAll, Tree.lowerAll, Tree.lowerAll, he.lower_congr hagree, Tree.lowerAll,
      Tree.lowerAll]
  | _, _, @DerivesArgs.more _ tokens rest _ _ _ he hes, hagree, base => by
    have hfirst : AgreeOnWords tokens r.lookup s.lookup := hagree.mono (List.subset_append_left ..)
    have hrest : AgreeOnWords rest r.lookup s.lookup :=
      hagree.mono (List.subset_append_of_subset_right _ (List.subset_cons_self ..))
    rw [Expression.treeAll, Tree.lowerAll, Tree.lowerAll, he.lower_congr hfirst, hes.lower_congr hrest]

end

/-! ## Compiling -/

/-- Registries that agree on the words of a source compile it alike. -/
theorem compile_congr {source : String} (h : ∀ w ∈ sourceWords source, r.lookup w = s.lookup w) (names : NameSupply) :
    (compile r source).run.run names = (compile s source).run.run names := by
  have hagree : AgreeOnWords (tokenize source) r.lookup s.lookup := agreeOnWords_tokenize h
  have hparse : parse r.resolves source = parse s.resolves source := parseTokens_congr (hagree.comp Option.isSome)
  rcases hread : parse r.resolves source with err | a
  · rw [run_compile_error hread, run_compile_error (hparse ▸ hread)]
  · obtain ⟨e, he, rfl⟩ := parseTokens_eq_ok_iff.1 hread
    rw [run_compile_tree hread, run_compile_tree (hparse ▸ hread), he.lower_congr hagree]

end

/-! ## Changes of a registry -/

namespace Registry

/-- A change of a registry: a name is bound, over an older binding or not, or a formula is added. -/
inductive Change where
  | define (space : Space) (name : String) (value : Value)
  | assert (space : Space) (formula : Term)

namespace Change

def apply (r : Registry) : Change → Registry
  | define space name value => r.define space name value
  | assert space formula => r.assert space formula

/-- The name that a change binds, if it binds one. -/
def name? : Change → Option String
  | define _ name _ => some name
  | assert _ _ => none

end Change

/-- The registry after changes, from first to last. -/
def changed (r : Registry) (changes : List Change) : Registry := changes.foldl Change.apply r

theorem lookup_assertAll (r : Registry) (space : Space) (ts : List Term) (name : String) :
    (r.assertAll space ts).lookup name = r.lookup name := by
  simp only [lookup, lookupIn_assertAll]

theorem lookup_define_of_ne (r : Registry) (space : Space) {name other : String} (h : name ≠ other) (v : Value) :
    (r.define space name v).lookup other = r.lookup other := by
  simp only [lookup, lookupIn_define, h, and_false, if_false]

theorem Change.lookup_apply (r : Registry) {c : Change} {name : String} (h : c.name? ≠ some name) :
    (c.apply r).lookup name = r.lookup name := by
  cases c with
  | define space other v => exact r.lookup_define_of_ne space (fun hname => h (congrArg some hname)) v
  | assert space formula => exact r.lookup_assertAll space [formula] name

theorem lookup_changed (r : Registry) {changes : List Change} {name : String}
    (h : ∀ c ∈ changes, c.name? ≠ some name) : (r.changed changes).lookup name = r.lookup name := by
  induction changes generalizing r with
  | nil => rfl
  | cons c changes ih =>
    rw [List.forall_mem_cons] at h
    exact (ih (c.apply r) h.2).trans (Change.lookup_apply r h.1)

end Registry

/-- What a source compiles to depends on its own words only. In a registry where every word of the source denotes the
same, it compiles to the same formula or fails with the same error, and the same names have been taken. So no change of
a registry is noticed that binds no word of the source. -/
theorem compile_uses_own_words (r : Registry) (source : String) (names : NameSupply) :
    (∀ s : Registry, (∀ w ∈ sourceWords source, s.lookup w = r.lookup w) →
      (compile s source).run.run names = (compile r source).run.run names) ∧
    ∀ changes : List Registry.Change, (∀ c ∈ changes, ∀ name, c.name? = some name → name ∉ sourceWords source) →
      (compile (r.changed changes) source).run.run names = (compile r source).run.run names := by
  refine ⟨fun s h => compile_congr h names, fun changes h => compile_congr (fun w hw => ?_) names⟩
  exact r.lookup_changed fun c hc hname => h c hc w hname hw

theorem compile_uses_own_words_shadowed :
    let gap : Area := .corridor (.int 0) (.realConst "d")
    let ahead : Area := .corridor (.realConst "left") (.int 2)
    let r := ((Registry.empty.define .model "gap" (.area gap)).define .model "ahead" (.area ahead)).define .model "v"
      (.area gap)
    let moved := (Registry.empty.define .user "gap" (.area gap)).define .code "ahead" (.area ahead)
    let changes : List Registry.Change :=
      [.define .code "v" (.area ahead), .define .user "x" (.area gap), .assert .code (.bool false)]
    let source := "in(gap, ahead)"
    let x := Point.named "q!3"
    let formula := Term.forAll (Point.binders "q!3") (.implies (gap.contains x) (ahead.contains x))
    (∀ w ∈ sourceWords source, moved.lookup w = r.lookup w) ∧
      (∀ c ∈ changes, ∀ name, c.name? = some name → name ∉ sourceWords source) ∧
      (r.changed changes).lookup "v" ≠ r.lookup "v" ∧
      (compile moved source).run.run ⟨3⟩ = (.ok formula, ⟨4⟩) ∧
      (compile (r.changed changes) source).run.run ⟨3⟩ = (.ok formula, ⟨4⟩) := by
  intro gap ahead r moved changes source x formula
  have hwords : sourceWords source = ["in", "gap", "ahead"] := by cbv
  have hcompile : (compile r source).run.run ⟨3⟩ = (.ok formula, ⟨4⟩) := by cbv
  have hmoved : ∀ w ∈ sourceWords source, moved.lookup w = r.lookup w := by
    rw [hwords]
    simp only [List.forall_mem_cons]
    exact ⟨by cbv, by cbv, by cbv, List.forall_mem_nil _⟩
  have hchanges : ∀ c ∈ changes, ∀ name, c.name? = some name → name ∉ sourceWords source := by
    rw [hwords]
    simp [changes, Registry.Change.name?]
  have hv : (r.changed changes).lookup "v" = some (.area ahead) ∧ r.lookup "v" = some (.area gap) :=
    ⟨by cbv, by cbv⟩
  obtain ⟨hagree, hchanged⟩ := compile_uses_own_words r source ⟨3⟩
  refine ⟨hmoved, hchanges, ?_, (hagree moved hmoved).trans hcompile, (hchanged changes hchanges).trans hcompile⟩
  rw [hv.1, hv.2]
  simp [gap, ahead, Term.realConst]

end RoadPolicy

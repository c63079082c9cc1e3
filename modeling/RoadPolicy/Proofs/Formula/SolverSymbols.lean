/-
Which names the solver tells apart. Quotes are no part of a symbol, so the symbol of a name stands for
the name itself, except that a bar of the name has become an underscore. Two names become one symbol
exactly if they differ in nothing else, and a solver reads every formula as if it had been written with
underscores for bars: names without bars stay apart, but a bar can merge two constants or bring a
constant under a quantifier that does not bind it.
-/
import RoadPolicy.Proofs.Formula.TermReading

namespace RoadPolicy

/-- Two words write the same symbol: quotes make no difference. -/
def SameSymbol (v w : String) : Prop := symbolName v = symbolName w

instance (v w : String) : Decidable (SameSymbol v w) := inferInstanceAs (Decidable (symbolName v = symbolName w))

theorem sameSymbol_iff {a b : String} : SameSymbol (symbolText a) (symbolText b) ↔ unbarred a = unbarred b := by
  rw [SameSymbol, symbolName_symbolText, symbolName_symbolText]

/-- Names without bars have symbols of their own. -/
theorem sameSymbol_iff_eq {a b : String} (ha : '|' ∉ a.toList) (hb : '|' ∉ b.toList) :
    SameSymbol (symbolText a) (symbolText b) ↔ a = b := by
  rw [sameSymbol_iff, unbarred_eq_self ha, unbarred_eq_self hb]

namespace Term

/-- The names of the constants of a term and of the variables that it binds. -/
def names (t : Term) : List String := t.constNames ++ t.boundNames

/-- No name of the term has a bar in it. -/
def Barless (t : Term) : Prop := ∀ name ∈ t.names, '|' ∉ name.toList

theorem Barless.rename_unbarred {t : Term} (h : t.Barless) : t.rename unbarred = t := by
  have hsame : t.rename unbarred = t.rename id := rename_congr fun name hname => unbarred_eq_self (h name hname)
  rw [hsame, rename_id]

end Term

/-- Two names are written as the same symbol exactly if they are equal up to bars and underscores; so in
formulas without bars no two names ever are. Of any formula, a solver reads what it says with underscores
for bars. -/
theorem symbols_merge_by_bars (a b : String) (formulas : List Term) :
    (SameSymbol (symbolText a) (symbolText b) ↔ unbarred a = unbarred b) ∧
    ((∀ f ∈ formulas, f.Barless) → ∀ v ∈ formulas.flatMap Term.names, ∀ w ∈ formulas.flatMap Term.names,
      SameSymbol (symbolText v) (symbolText w) → v = w) ∧
    ∀ f ∈ formulas, (∀ name ∈ f.constNames, name ≠ "true" ∧ name ≠ "false") →
      Term.read? f.text = some (f.rename unbarred).normalised := by
  refine ⟨sameSymbol_iff, fun hbars v hv w hw hsame => ?_, fun f _ htruth => ?_⟩
  · obtain ⟨f, hf, hv⟩ := List.mem_flatMap.1 hv
    obtain ⟨g, hg, hw⟩ := List.mem_flatMap.1 hw
    exact (sameSymbol_iff_eq (hbars f hf v hv) (hbars g hg w hw)).1 hsame
  · exact Term.read?_text_unbarred (Term.everywhere_namesNoTruth.2 htruth)

theorem unbarred_ofList (cs : List Char) :
    unbarred (String.ofList cs) = String.ofList (cs.map fun c => if c == '|' then '_' else c) := by
  apply String.toList_injective
  rw [unbarred, String.toList_map, String.toList_ofList, String.toList_ofList]

/-- A constant that comes under the quantifier of another name, and two names that a blank keeps apart. -/
theorem symbols_merge_by_bars_captured :
    let t := Term.thereIs [⟨"a_b", .real⟩] ((Term.realConst "a|b").lt (.realConst "a_b"))
    let u := (Term.realConst "a b").lt (.realConst "a_b")
    (unbarred "a|b" = unbarred "a_b" ∧ SameSymbol (symbolText "a|b") (symbolText "a_b")) ∧
      (u.Barless ∧ ¬ SameSymbol (symbolText "a b") (symbolText "a_b")) ∧
      (∀ name ∈ t.constNames, name ≠ "true" ∧ name ≠ "false") ∧
      Term.read? t.text = some (Term.thereIs [⟨"a_b", .real⟩] ((Term.realConst "a_b").lt (.realConst "a_b"))) := by
  intro t u
  obtain ⟨hiff, -, hread⟩ := symbols_merge_by_bars "a|b" "a_b" [t]
  obtain ⟨-, happart, -⟩ := symbols_merge_by_bars "a b" "a_b" [u]
  have hbar : unbarred "a|b" = "a_b" := unbarred_ofList ['a', '|', 'b']
  have hmark : unbarred "a_b" = "a_b" := unbarred_eq_self (by decide)
  have hbarless : u.Barless := by
    have hnames : u.names.all (fun name => !name.toList.contains '|') = true := by decide +kernel
    intro name hname
    simpa using List.all_eq_true.1 hnames name hname
  have htruth : ∀ name ∈ t.constNames, name ≠ "true" ∧ name ≠ "false" := by decide +kernel
  have hmerged : t.rename unbarred = .thereIs [⟨"a_b", .real⟩] ((Term.realConst "a_b").lt (.realConst "a_b")) := by
    simp only [t, Term.thereIs, Term.lt, Term.realConst, Term.rename, List.map_cons, List.map_nil, Binder.rename, hbar,
      hmark]
  have hsame : unbarred "a|b" = unbarred "a_b" := hbar.trans hmark.symm
  refine ⟨⟨hsame, hiff.2 hsame⟩, ⟨hbarless, fun hsame => ?_⟩, htruth, ?_⟩
  · have heq := happart (List.forall_mem_singleton.2 hbarless) "a b" (by decide +kernel) "a_b" (by decide +kernel) hsame
    exact absurd heq (by decide)
  · rw [hread t List.mem_cons_self htruth, hmerged]
    rfl

/-- Two constants become one, and a formula that can be true is handed over as one that cannot. -/
theorem bar_merges_constants :
    let t := (Term.realConst "a|b c").lt (.realConst "a_b c")
    "a|b c" ≠ "a_b c" ∧ symbolText "a|b c" = "|a_b c|" ∧ symbolText "a_b c" = "|a_b c|" ∧
      t.text = "(< |a_b c| |a_b c|)" ∧
      (∃ I : Interpretation, I.Satisfies t) ∧ ∀ I : Interpretation, ¬ I.Satisfies (t.rename unbarred) := by
  intro t
  have hbar : unbarred "a|b c" = "a_b c" := unbarred_ofList ['a', '|', 'b', ' ', 'c']
  have hmark : unbarred "a_b c" = "a_b c" := unbarred_eq_self (by decide)
  have hsymbol : ∀ name, unbarred name = "a_b c" → isPlainSymbol name = false → symbolText name = "|a_b c|" := by
    intro name hname hplain
    apply String.toList_injective
    rw [symbolText_quoted (by rw [hplain]; decide), hname]
    decide
  have hfirst := hsymbol _ hbar (by decide)
  have hsecond := hsymbol _ hmark (by decide)
  have htext : t.toSExpr = .app "<" [.atom "|a_b c|", .atom "|a_b c|"] := by
    show SExpr.app "<" [.atom (symbolText "a|b c"), .atom (symbolText "a_b c")] = _
    rw [hfirst, hsecond]
  refine ⟨by decide, hfirst, hsecond, ?_, ?_, fun I => ?_⟩
  · rw [Term.text, htext]
    decide
  · refine ⟨⟨fun name => .number (if name = "a|b c" then 0 else 1), fun p q => p / q⟩, ?_⟩
    rw [Interpretation.satisfies_lt]
    decide +kernel
  · have hmerged : t.rename unbarred = (Term.realConst "a_b c").lt (.realConst "a_b c") := by
      simp only [t, Term.lt, Term.realConst, Term.rename, hbar, hmark]
    rw [hmerged, I.satisfies_lt]
    exact lt_irrefl _

end RoadPolicy

import LoxLang.Proofs.Session.Soundness

/-!
# The statements of accepted texts

What the pass through the scopes makes of a text differs from its trees in the sites
only.  The statements are laid out well, and every token in them is one of the text.
-/

namespace LoxLang.Accepted

variable {host : Host} {text : String} {statements : List (Stmt Site)} {trees : List (Stmt Unit)}
  {state : ScopeState}

theorem laid (accepted : Accepted host text statements trees state) :
    statements.map Stmt.bare = trees ∧
      ∃ survey address, Stmt.ListScoped survey Context.top address 0 statements := by
  obtain ⟨notes, surveyed⟩ := Chronicle.surveyed_of_accepted (Chronicle.fresh false) accepted
  have endsWell : Surveying.EndsWell ⟨state, notes⟩ ⟨state, notes⟩ :=
    ⟨⟨List.suffix_refl _, List.suffix_refl _, List.suffix_refl _⟩, accepted.harmless⟩
  obtain ⟨bare, listScoped⟩ :=
    Surveying.program_accepted accepted.grammatical accepted.worded rfl surveyed endsWell
  exact ⟨bare, notes, _, listScoped⟩

/-- The statements with other tokens come of the trees with those tokens. -/
theorem bare_mapAll (accepted : Accepted host text statements trees state)
    (rewrite : Token → Token) :
    (Stmt.mapAll rewrite id statements).map Stmt.bare = trees.map (Stmt.map rewrite id) := by
  rw [← accepted.laid.1, Stmt.mapAll_eq_map, List.map_map, List.map_map]
  apply List.map_congr_left
  intro s _
  simp only [Function.comp_apply, Stmt.map_map]
  rfl

theorem tokens_eq (accepted : Accepted host text statements trees state) :
    Stmt.tokensOfAll statements = Stmt.tokensOfAll trees := by
  rw [← accepted.laid.1, ← Stmt.mapAll_eq_map, Stmt.tokensOfAll_map, List.map_id]

theorem tokens_count (accepted : Accepted host text statements trees state) (token : Token) :
    (Stmt.tokensOfAll statements).count token ≤
      (TokenStream.ofText text).tokens.count token := by
  rw [accepted.tokens_eq]
  exact (parseWithin_listReadFrom accepted.read accepted.quiet).tokens token

theorem tokens_subset (accepted : Accepted host text statements trees state) :
    Stmt.tokensOfAll statements ⊆ (TokenStream.ofText text).tokens := by
  rw [accepted.tokens_eq]
  exact (parseWithin_listReadFrom accepted.read accepted.quiet).tokens_subset

end LoxLang.Accepted

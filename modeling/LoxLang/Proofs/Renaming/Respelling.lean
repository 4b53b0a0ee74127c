import LoxLang.Proofs.Lexicon.Placing
import LoxLang.Proofs.Parser.Naturality
import LoxLang.Proofs.Words
import Mathlib.Data.List.Nodup

/-!
# Texts with names spelled anew

In a text the identifiers at some marks are replaced by a new one.  The tokens of the
new text are those of the old one, on the same lines and of the same kinds; at the
marks they have the new lexeme, elsewhere the old one.  Their spots may differ.
-/

namespace LoxLang

/-- The lexeme, or the new word if it stands at one of the marks. -/
def PlacedLexeme.respell (marks : List Mark) (new : String) (placed : PlacedLexeme) : Lexeme :=
  if placed.mark ∈ marks then ⟨.word, new.toList⟩ else placed.toLexeme

/-- The text in which the new word stands in the place of the lexemes at the marks. -/
def respell (text : String) (marks : List Mark) (new : String) : String :=
  String.ofList ((placedLexemes text.toList).flatMap fun placed => (placed.respell marks new).chars)

/-- The word is one that can name a variable. -/
structure IsIdentifier (word : String) : Prop where
  isWord : Lexeme.IsWord word.toList
  isName : TokenKind.ofWord word = .identifier

/-- The second token stands on the same line and is of the same kind; if the first one stands at one
of the marks then it has the new lexeme. -/
structure Token.Respelled (marks : List Mark) (new : String) (token twin : Token) : Prop where
  kind : twin.kind = token.kind
  line : twin.line = token.line
  lexeme : twin.lexeme = if token.toMark ∈ marks then new else token.lexeme

namespace PlacedLexeme

variable {marks : List Mark} {new : String} {lexemes : List Lexeme}

/-- The placed lexeme is an identifier if it stands at one of the marks. -/
def Named (marks : List Mark) (placed : PlacedLexeme) : Prop :=
  placed.mark ∈ marks → ∃ token, placed.token? = some token ∧ token.kind = .identifier

/-- The second lexeme stands on the same line and is the first one, spelled anew. -/
structure Respelled (marks : List Mark) (new : String) (placed twin : PlacedLexeme) : Prop where
  named : placed.Named marks
  line : twin.mark.line = placed.mark.line
  lexeme : twin.toLexeme = placed.respell marks new

theorem place_respelled {mark twin : Mark} (sameLine : twin.line = mark.line)
    (named : ∀ placed ∈ place mark lexemes, placed.Named marks)
    (sameLines : ∀ placed ∈ place mark lexemes,
      (placed.respell marks new).chars.count '\n' = placed.chars.count '\n') :
    List.Forall₂ (Respelled marks new) (place mark lexemes)
      (place twin ((place mark lexemes).map (respell marks new))) := by
  induction lexemes generalizing mark twin with
  | nil => exact .nil
  | cons first rest induction =>
      obtain ⟨firstNamed, restNamed⟩ := List.forall_mem_cons.1 named
      obtain ⟨firstLines, restLines⟩ := List.forall_mem_cons.1 sameLines
      refine .cons ⟨firstNamed, sameLine, rfl⟩ (induction ?_ restNamed restLines)
      simp only [Mark.advance] at firstLines ⊢
      rw [sameLine, firstLines]

variable {placed twin : PlacedLexeme}

theorem Named.word (named : placed.Named marks) (marked : placed.mark ∈ marks) :
    placed.kind = .word ∧ TokenKind.ofWord (String.ofList placed.chars) = .identifier := by
  obtain ⟨token, isToken, isName⟩ := named marked
  obtain ⟨kind, kindOf, rfl⟩ := Option.map_eq_some_iff.1 isToken
  dsimp only at isName
  rw [isName] at kindOf
  unfold tokenKind? at kindOf
  split at kindOf
  · exact absurd rfl (TokenKind.ofPunctuation_ne kindOf).1
  · cases kindOf
  · cases kindOf
  · rename_i isWord
    exact ⟨isWord, Option.some.inj kindOf⟩
  all_goals cases kindOf

theorem respell_respelled (identifier : IsIdentifier new) (named : placed.Named marks) :
    Lexeme.Respelled placed.toLexeme (placed.respell marks new) := by
  unfold respell
  split
  · rename_i marked
    exact .inr ⟨(named.word marked).1, rfl, identifier.isWord⟩
  · exact .inl rfl

/-- A lexeme that is spelled anew is a token as before. -/
theorem Respelled.token? (identifier : IsIdentifier new)
    (respelled : placed.Respelled marks new twin) :
    Option.Rel (Token.Respelled marks new) placed.token? twin.token? := by
  unfold PlacedLexeme.token?
  rw [respelled.lexeme]
  unfold respell
  split
  · rename_i marked
    obtain ⟨isWord, isName⟩ := respelled.named.word marked
    have kindOf : tokenKind? placed.toLexeme = some .identifier := by
      unfold tokenKind?
      rw [isWord, isName]
    have kindOfTwin : tokenKind? ⟨.word, new.toList⟩ = some .identifier := by
      simp [tokenKind?, identifier.isName]
    rw [kindOf, kindOfTwin]
    refine .some ⟨rfl, respelled.line, ?_⟩
    rw [if_pos marked]
    simp
  · rename_i unmarked
    cases tokenKind? placed.toLexeme with
    | none => exact .none
    | some kind =>
        refine .some ⟨rfl, respelled.line, ?_⟩
        rw [if_neg unmarked]

/-- Nothing is wrong with a word. -/
theorem Respelled.issue? (respelled : placed.Respelled marks new twin) :
    Option.Rel (fun _ _ => True) placed.issue? twin.issue? := by
  have sameError : error? twin.kind = error? placed.kind := by
    rw [respelled.lexeme]
    unfold respell
    split
    · rename_i marked
      rw [(respelled.named.word marked).1]
    · rfl
  unfold PlacedLexeme.issue?
  rw [sameError]
  cases error? placed.kind with
  | none => exact .none
  | some error => exact .some trivial

end PlacedLexeme

section Texts

variable {text : String} {marks : List Mark} {new : String}

theorem isWord_of_named {placed : PlacedLexeme} (member : placed ∈ placedLexemes text.toList)
    (named : placed.Named marks) (marked : placed.mark ∈ marks) : Lexeme.IsWord placed.chars := by
  have inText : placed.toLexeme ∈ Lexeme.all text.toList := by
    rw [← PlacedLexeme.map_toLexeme_place Mark.start (Lexeme.all text.toList)]
    exact List.mem_map_of_mem member
  exact (Lexeme.sequence_all text.toList).isWord _ inText (named.word marked).1

/-- The lexemes of the new text are those of the old one, spelled anew. -/
theorem placedLexemes_respell (identifier : IsIdentifier new)
    (named : ∀ placed ∈ placedLexemes text.toList, placed.Named marks) :
    List.Forall₂ (PlacedLexeme.Respelled marks new) (placedLexemes text.toList)
      (placedLexemes (respell text marks new).toList) := by
  have placedAgain : Lexeme.all (respell text marks new).toList =
      (placedLexemes text.toList).map (PlacedLexeme.respell marks new) := by
    have respelled : List.Forall₂ Lexeme.Respelled (Lexeme.all text.toList)
        ((placedLexemes text.toList).map (PlacedLexeme.respell marks new)) := by
      rw [← PlacedLexeme.map_toLexeme_place Mark.start (Lexeme.all text.toList),
        List.forall₂_map_left_iff, List.forall₂_map_right_iff]
      exact List.forall₂_same.2 fun placed member =>
        PlacedLexeme.respell_respelled identifier (named placed member)
    have sequence := (Lexeme.sequence_all text.toList).respelled respelled
    rw [← sequence.all_eq, List.flatMap_map]
    simp [respell]
  rw [placedLexemes, placedLexemes, placedAgain]
  apply PlacedLexeme.place_respelled rfl named
  intro placed member
  unfold PlacedLexeme.respell
  split
  · rename_i marked
    rw [(isWord_of_named member (named placed member) marked).count_newline,
      identifier.isWord.count_newline]
  · rfl

/-- Nothing is wrong with the lexemes of the new text if nothing is with those of the old one. -/
theorem issuesOf_respell (identifier : IsIdentifier new)
    (named : ∀ placed ∈ placedLexemes text.toList, placed.Named marks)
    (healthy : TokenStream.issuesOf text = []) :
    TokenStream.issuesOf (respell text marks new) = [] := by
  have respelled := placedLexemes_respell identifier named
  have issues := List.rel_filterMap (fun _ _ same => PlacedLexeme.Respelled.issue? same) respelled
  have lengths := issues.length_eq
  unfold TokenStream.issuesOf at healthy ⊢
  rw [healthy] at lengths
  exact List.eq_nil_of_length_eq_zero lengths.symm

/-- Words that are spelled alike are of one kind: if one token is an identifier, then so is every
other one with its lexeme. -/
theorem TokenStream.kind_eq_of_lexeme {token other : Token}
    (member : token ∈ (TokenStream.ofText text).tokens)
    (otherMember : other ∈ (TokenStream.ofText text).tokens) (isName : token.kind = .identifier)
    (same : other.lexeme = token.lexeme) : other.kind = .identifier := by
  obtain ⟨placed, inText, isToken⟩ := List.mem_filterMap.1 member
  obtain ⟨twin, twinInText, isTwin⟩ := List.mem_filterMap.1 otherMember
  have named : placed.Named [placed.mark] := fun _ => ⟨token, isToken, isName⟩
  obtain ⟨c, more, begins, starts, _⟩ := isWord_of_named inText named (List.mem_singleton_self _)
  obtain ⟨_, _, rfl⟩ := Option.map_eq_some_iff.1 isToken
  obtain ⟨kind, kindOf, rfl⟩ := Option.map_eq_some_iff.1 isTwin
  have sameChars : twin.chars = placed.chars := String.ofList_injective same
  have inAll : twin.toLexeme ∈ Lexeme.all text.toList := by
    rw [← PlacedLexeme.map_toLexeme_place Mark.start (Lexeme.all text.toList)]
    exact List.mem_map_of_mem twinInText
  have isWord := (Lexeme.sequence_all text.toList).kind_of_startsWord _ inAll c
    (by rw [sameChars, begins]; rfl) starts
  rw [PlacedLexeme.tokenKind?, isWord] at kindOf
  cases kindOf
  rw [sameChars]
  exact (named.word (List.mem_singleton_self _)).2

theorem TokenStream.nodup_marks (text : String) :
    ((TokenStream.ofText text).tokens.map Token.toMark).Nodup := by
  rw [List.Nodup, List.pairwise_map]
  apply (pairwise_tokens text).imp
  intro earlier later before same
  exact Nat.ne_of_lt before (congrArg Mark.spot same)

theorem TokenStream.nodup_tokens (text : String) : (TokenStream.ofText text).tokens.Nodup :=
  (nodup_marks text).of_map

theorem nodup_placedLexemes (text : List Char) :
    ((placedLexemes text).map PlacedLexeme.mark).Nodup := by
  rw [List.Nodup, List.pairwise_map]
  apply (PlacedLexeme.pairwise_ascend text).imp
  intro earlier later before same
  exact Nat.ne_of_lt before (congrArg Mark.spot same)

/-- Different elements may be sent to whatever they are related to. -/
theorem exists_map_of_forall₂ {α : Type} [DecidableEq α] {related : α → α → Prop}
    {elements twins : List α} (nodup : elements.Nodup)
    (pairs : List.Forall₂ related elements twins) :
    ∃ f : α → α, twins = elements.map f ∧ (∀ a ∈ elements, related a (f a)) ∧
      ∀ a ∉ elements, f a = a := by
  induction pairs with
  | nil => exact ⟨id, rfl, by simp, fun _ _ => rfl⟩
  | @cons first twin rest twins same _ induction =>
      obtain ⟨alone, restNodup⟩ := List.nodup_cons.1 nodup
      obtain ⟨f, isMap, sends, fixes⟩ := induction restNodup
      refine ⟨Function.update f first twin, ?_, ?_, ?_⟩
      · rw [List.map_cons, Function.update_self, isMap]
        congr 1
        apply List.map_congr_left
        intro a member
        have notFirst : a ≠ first := by
          intro isFirst
          rw [isFirst] at member
          exact alone member
        rw [Function.update_of_ne notFirst]
      · intro a member
        by_cases isFirst : a = first
        · rw [isFirst, Function.update_self]
          exact same
        · rw [Function.update_of_ne isFirst]
          exact sends a ((List.mem_cons.1 member).resolve_left isFirst)
      · intro a absent
        rw [List.mem_cons, not_or] at absent
        rw [Function.update_of_ne absent.1]
        exact fixes a absent.2

/-- The tokens of the new text come from those of the old one by a function. -/
theorem tokens_respell (identifier : IsIdentifier new)
    (named : ∀ placed ∈ placedLexemes text.toList, placed.Named marks) :
    ∃ rewrite : Token → Token,
      (TokenStream.ofText (respell text marks new)).tokens =
        (TokenStream.ofText text).tokens.map rewrite ∧
      (∀ token ∈ (TokenStream.ofText text).tokens, token.Respelled marks new (rewrite token)) ∧
      ∀ token ∉ (TokenStream.ofText text).tokens, rewrite token = token := by
  have respelled := placedLexemes_respell identifier named
  have pairs :=
    List.rel_filterMap (fun _ _ same => PlacedLexeme.Respelled.token? identifier same) respelled
  exact exists_map_of_forall₂ (TokenStream.nodup_tokens text) pairs

end Texts

end LoxLang

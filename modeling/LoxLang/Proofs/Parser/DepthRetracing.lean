import LoxLang.Proofs.Parser.Depth
import LoxLang.Proofs.Parser.LayerRetracing

/-!
# Retracing with another depth

How deep the parsers may nest matters only when they halt for lack of depth.  A parser
that does not is retraced by its twin of any depth that is enough for the tokens ahead.
-/

namespace LoxLang.Parser

namespace Retraces

variable {terms : Terms} {bound : Nat} {statement twin : Parser (Stmt Unit)}

/-- Both recover in the same way from the same syntax error. -/
theorem recovering (exact : terms.exact) (restless : ¬terms.calm) (firm : ¬terms.lenient)
    (retraces : Retraces terms Closing bound statement twin) :
    Retraces terms Closing bound (Parser.recovering statement) (Parser.recovering twin) where
  onward := Reads.recovering retraces.onward
  twinOnward := Reads.recovering retraces.twinOnward
  onResult cursor result after few succeeded := by
    unfold Parser.recovering at succeeded
    split at succeeded
    case h_1 inner middle outcome =>
      cases succeeded
      obtain ⟨added, taken, complaints, ahead, admitted, same⟩ :=
        retraces.onResult cursor result after few outcome
      refine ⟨added, taken, complaints, ahead, admitted, fun others earlier fits => ?_⟩
      unfold Parser.recovering
      rw [same others earlier fits]
    case h_2 middle outcome =>
      cases succeeded
      obtain ⟨error, added, taken, _, complaints, ahead, ⟨_, placed⟩, same⟩ :=
        retraces.onError cursor middle few outcome
      obtain ⟨dropped, rest⟩ := synchronize_suffix middle.ahead
      have lost : middle.ahead = [] → synchronize middle.ahead = [] := fun atEnd => by
        rw [atEnd]
        rfl
      refine ⟨⟨middle.ahead.head?, error⟩ :: added, taken ++ dropped, complaints, ?_,
        ⟨fun calm => absurd calm restless, fun complaint among isNone => ?_⟩,
        fun others earlier fits => ?_⟩
      · rw [List.append_assoc, rest, ahead]
      · rcases List.mem_cons.1 among with rfl | isEarlier
        · exact lost (List.head?_eq_none_iff.1 isNone)
        · exact lost (placed complaint isEarlier isNone)
      · have halts := (same middle.ahead earlier ⟨fun _ => rfl, .inl rfl⟩).resolve_right
          fun ⟨⟨lenient, _⟩, _⟩ => firm lenient
        rw [fits.1 exact, List.append_assoc, rest]
        unfold Parser.recovering
        rw [halts]
        rfl
    case h_3 => cases succeeded
  onError cursor after _ halted := by
    unfold Parser.recovering at halted
    split at halted <;> cases halted

/-- The twin loses the statement and goes on. -/
theorem recovers (lenient : terms.lenient)
    (retraces : Retraces terms.opened Closing bound statement twin) :
    Retraces terms.opened Closing bound statement (Parser.recovering twin) where
  onward := retraces.onward
  twinOnward := Reads.recovering retraces.twinOnward
  onResult cursor result after few succeeded := by
    obtain ⟨added, taken, complaints, ahead, admitted, same⟩ :=
      retraces.onResult cursor result after few succeeded
    refine ⟨added, taken, complaints, ahead, admitted, fun others earlier fits => ?_⟩
    unfold Parser.recovering
    rw [same others earlier fits]
  onError cursor after few halted := by
    obtain ⟨error, added, taken, ends, complaints, ahead, admitted, same⟩ :=
      retraces.onError cursor after few halted
    refine ⟨error, added, taken, ends, complaints, ahead, admitted, fun others earlier fits => ?_⟩
    refine .inr ⟨⟨lenient, .inl trivial⟩, ?_⟩
    unfold Parser.recovering
    rcases same others earlier fits with halts | ⟨_, notes⟩
    · rw [halts]
      exact List.suffix_refl _
    · revert notes
      cases twin ⟨taken ++ others, earlier⟩ with
      | ok result after => exact id
      | error halt after => cases halt <;> exact id

end Retraces

/-- The guards keep the steps of what they guard. -/
def Guarded (terms : Terms) (manner otherManner : Manner) : Prop :=
  ∀ bound statement twin, Retraces terms.opened Closing bound statement twin →
    Retraces terms.opened Closing bound (manner.guard statement) (otherManner.guard twin)

/-- The very same steps on the very same tokens. -/
def Terms.same : Terms := ⟨False, True, False, False⟩

theorem Guarded.same (manner : Manner) : Guarded .same manner manner := by
  intro bound statement twin retraces
  cases manner with
  | strict => exact retraces
  | recovering => exact .recovering trivial id id retraces

theorem Guarded.strict (terms : Terms) : Guarded terms .strict .strict :=
  fun _ _ _ retraces => retraces

theorem Guarded.recovers {terms : Terms} (lenient : terms.lenient) :
    Guarded terms .strict .recovering :=
  fun _ _ _ retraces => .recovers lenient retraces

namespace Retraces

variable {terms : Terms} {manner otherManner : Manner}

mutual

theorem expressionAt (bound depth deeper : Nat) (deep : 2 * bound ≤ deeper) :
    Retraces terms Closing bound (Parser.expressionAt depth) (Parser.expressionAt deeper) := by
  cases depth with
  | zero => exact .tooDeep (ReadsLayer.expressionAt deeper).onward
  | succ depth =>
      cases deeper with
      | zero =>
          obtain rfl : bound = 0 := by omega
          exact .nothing (ReadsLayer.expressionAt _).onward (ReadsLayer.expressionAt 0).onward
      | succ deeper =>
          exact assignment (unaryAt bound depth deeper (by omega))
            (expressionAt (bound - 1) depth deeper (by omega))

theorem unaryAt (bound depth deeper : Nat) (deep : 2 * bound ≤ deeper + 1) :
    Retraces terms Closing bound (Parser.unaryAt depth) (Parser.unaryAt deeper) := by
  cases depth with
  | zero => exact .tooDeep (ReadsLayer.unaryAt deeper).onward
  | succ depth =>
      cases deeper with
      | zero =>
          obtain rfl : bound = 0 := by omega
          exact .nothing (ReadsLayer.unaryAt _).onward (ReadsLayer.unaryAt 0).onward
      | succ deeper =>
          exact prefixed (unaryAt (bound - 1) depth deeper (by omega))
            (expressionAt (bound - 1) depth deeper (by omega)) (.expressionAt depth)

end

mutual

theorem statementBy (guarded : Guarded terms manner otherManner) (inside : Prop)
    (bound depth deeper : Nat) (deep : 2 * bound + 1 ≤ deeper) :
    Retraces { terms with inside := inside } Closing bound (Parser.statementBy manner depth)
      (Parser.statementBy otherManner deeper) := by
  cases depth with
  | zero => exact .tooDeep (Takes.statementBy otherManner deeper).onward
  | succ depth =>
      cases deeper with
      | zero => omega
      | succ deeper =>
          by_cases isZero : bound = 0
          · subst isZero
            exact .nothing (Takes.statementBy _ _).onward (Takes.statementBy _ _).onward
          · exact Retraces.statement (expressionAt bound depth deeper (by omega))
              (.expressionAt depth) (.expressionAt depth)
              (statementBy guarded inside (bound - 1) depth deeper (by omega))
              (declarationBy guarded (bound - 1) depth deeper (by omega))
              (.declarationBy manner depth) (.declarationBy otherManner deeper)

theorem declarationBy (guarded : Guarded terms manner otherManner) (bound depth deeper : Nat)
    (deep : 2 * bound + 2 ≤ deeper) :
    Retraces terms.opened Closing bound (Parser.declarationBy manner depth)
      (Parser.declarationBy otherManner deeper) := by
  cases depth with
  | zero => exact .tooDeep (ReadsStatement.declarationBy otherManner deeper).onward
  | succ depth =>
      cases deeper with
      | zero => omega
      | succ deeper =>
          by_cases isZero : bound = 0
          · subst isZero
            exact .nothing (ReadsStatement.declarationBy _ _).onward
              (ReadsStatement.declarationBy _ _).onward
          · exact guarded bound _ _ <| Retraces.attempt (expressionAt bound depth deeper (by omega))
              (statementBy guarded True bound depth deeper (by omega))
              (Takes.statementBy manner depth).moves
              (declarationBy guarded (bound - 1) depth deeper (by omega))
              (.declarationBy manner depth) (.declarationBy otherManner deeper)
              (.declarationBy manner depth) (.declarationBy otherManner deeper)

end

end Retraces

end LoxLang.Parser

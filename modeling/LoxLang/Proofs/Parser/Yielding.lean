import LoxLang.Parser.Cursor
import LoxLang.Proofs.Unparsing

/-!
# What parsers yield

With certain tokens ahead, and certain others after these, a parser leads to
another parser if it takes exactly the former and then goes on as that other one
does, without a complaint.  It yields a result if it leads to that result.  If it
may halt, then in either case it may do so instead because the text nests deeper
than is allowed.
-/

namespace LoxLang.Parser

variable {α β : Type} {mayHalt : Prop}

/-- The parser takes the tokens, and goes on as the next one in front of the rest. -/
def LeadsTo (mayHalt : Prop) (parser : Parser α) (tokens rest : List Token) (next : Parser α) :
    Prop :=
  ∀ complaints, parser ⟨tokens ++ rest, complaints⟩ = next ⟨rest, complaints⟩ ∨
    mayHalt ∧ ∃ halted, parser ⟨tokens ++ rest, complaints⟩ = .error .tooDeep halted

/-- The parser takes the tokens in front of the rest, and yields the result. -/
abbrev Yields (mayHalt : Prop) (parser : Parser α) (tokens rest : List Token) (result : α) : Prop :=
  LeadsTo mayHalt parser tokens rest (pure result)

namespace LeadsTo

variable {parser next : Parser α} {left right tokens rest : List Token} {value : α}

theorem refl (parser : Parser α) (rest : List Token) : LeadsTo mayHalt parser [] rest parser :=
  fun _ => .inl rfl

theorem tooDeep (may : mayHalt) : LeadsTo mayHalt (throw .tooDeep) tokens rest next :=
  fun _ => .inr ⟨may, _, rfl⟩

theorem trans {last : Parser α} (leads : LeadsTo mayHalt parser left (right ++ rest) next)
    (goesOn : LeadsTo mayHalt next right rest last) :
    LeadsTo mayHalt parser (left ++ right) rest last := by
  intro complaints
  rw [List.append_assoc]
  rcases leads complaints with same | halts
  · rw [same]
    exact goesOn complaints
  · exact .inr halts

theorem bind {step : α → Parser β} {last : Parser β}
    (yields : Yields mayHalt parser left (right ++ rest) value)
    (goesOn : LeadsTo mayHalt (step value) right rest last) :
    LeadsTo mayHalt (parser >>= step) (left ++ right) rest last := by
  intro complaints
  rw [List.append_assoc]
  change EStateM.bind parser step _ = _ ∨ mayHalt ∧ ∃ halted, EStateM.bind parser step _ = _
  unfold EStateM.bind
  rcases yields complaints with same | ⟨may, halted, halts⟩
  · rw [same]
    exact goesOn complaints
  · rw [halts]
    exact .inr ⟨may, halted, rfl⟩

theorem finish {step : α → Parser β} {last : Parser β}
    (yields : Yields mayHalt parser tokens rest value)
    (goesOn : LeadsTo mayHalt (step value) [] rest last) :
    LeadsTo mayHalt (parser >>= step) tokens rest last := by
  have steps : LeadsTo mayHalt (parser >>= step) (tokens ++ []) rest last := bind yields goesOn
  rwa [List.append_nil] at steps

theorem map {make : α → β} (yields : Yields mayHalt parser tokens rest value) :
    Yields mayHalt (do return make (← parser)) tokens rest (make value) :=
  finish yields (refl _ rest)

theorem look {step : α → Parser β} {last : Parser β}
    (yields : Yields mayHalt parser [] (tokens ++ rest) value)
    (goesOn : LeadsTo mayHalt (step value) tokens rest last) :
    LeadsTo mayHalt (parser >>= step) tokens rest last :=
  bind yields goesOn

/-- Where nothing goes wrong there is nothing to recover from. -/
theorem recovering {S : Type} {statement : Parser (Stmt S)} {result : Stmt S}
    (yields : Yields mayHalt statement tokens rest result) :
    Yields mayHalt (Parser.recovering statement) tokens rest result := by
  intro complaints
  rcases yields complaints with same | ⟨may, halted, halts⟩
  · left
    simp only [Parser.recovering, same]
    rfl
  · right
    exact ⟨may, halted, by simp only [Parser.recovering, halts]⟩

theorem remaining : Yields mayHalt Parser.remaining [] rest rest.length :=
  fun _ => .inl rfl

theorem peek : Yields mayHalt Parser.peek [] rest rest.head? :=
  fun _ => .inl rfl

theorem isAhead (kind : TokenKind) :
    Yields mayHalt (Parser.isAhead kind) [] rest (rest.head?.any (·.kind = kind)) :=
  fun _ => .inl rfl

theorem decline {kinds : List TokenKind} (unwanted : ∀ token ∈ rest.head?, token.kind ∉ kinds) :
    Yields mayHalt (Parser.accept kinds) [] rest none := by
  intro complaints
  left
  cases rest with
  | nil => rfl
  | cons token more => exact if_neg (unwanted token rfl)

theorem accept {kinds : List TokenKind} {token : Token} (wanted : token.kind ∈ kinds) :
    Yields mayHalt (Parser.accept kinds) [token] rest (some token) :=
  fun _ => .inl (if_pos wanted)

variable {kinds : List TokenKind} {token : Token} {last : Parser β}

theorem declineThen {branch : Option Token → Parser β}
    (unwanted : ∀ token ∈ (tokens ++ rest).head?, token.kind ∉ kinds)
    (goesOn : LeadsTo mayHalt (branch none) tokens rest last) :
    LeadsTo mayHalt (Parser.accept kinds >>= branch) tokens rest last :=
  look (decline unwanted) goesOn

theorem acceptThen {branch : Option Token → Parser β} (wanted : token.kind ∈ kinds)
    (goesOn : LeadsTo mayHalt (branch (some token)) tokens rest last) :
    LeadsTo mayHalt (Parser.accept kinds >>= branch) (token :: tokens) rest last :=
  bind (accept wanted) goesOn

theorem expect {kind : TokenKind} {what : String} (same : token.kind = kind) :
    Yields mayHalt (Parser.expect kind what) [token] rest token :=
  acceptThen (List.mem_singleton.2 same) (refl (pure token) rest)

theorem expectThen {kind : TokenKind} {what : String} {step : Token → Parser β}
    (same : token.kind = kind) (goesOn : LeadsTo mayHalt (step token) tokens rest last) :
    LeadsTo mayHalt (Parser.expect kind what >>= step) (token :: tokens) rest last :=
  bind (expect same) goesOn

end LeadsTo

section Items

variable {item : Parser α} {pieces : α → List Piece} {results : List α} {tokens rest : List Token}
  {safe : Token → Prop} {fuel : Nat}

/-- The tokens of each item are read as the item in front of any safe token. -/
def YieldsEach (mayHalt : Prop) (item : Parser α) (pieces : α → List Piece) (safe : Token → Prop)
    (results : List α) : Prop :=
  ∀ one ∈ results, ∀ tokens rest, Piece.AllFit (pieces one) tokens →
    (∀ token ∈ rest.head?, safe token) → Yields mayHalt item tokens rest one

/-- The first token of each item is of this kind. -/
def BeginsEach (first : Token → Prop) (pieces : α → List Piece) (results : List α) : Prop :=
  ∀ one ∈ results, ∀ tokens, Piece.AllFit (pieces one) tokens →
    ∃ token more, tokens = token :: more ∧ first token

/-- Items are read as long as one begins. -/
theorem LeadsTo.many {begins : Token → Bool} (yields : YieldsEach mayHalt item pieces safe results)
    (begin : BeginsEach (fun token => begins token = true ∧ safe token) pieces results)
    (fit : Piece.AllFit (results.flatMap pieces) tokens) (enough : results.length ≤ fuel)
    (ends : ∀ token ∈ rest.head?, begins token = false ∧ safe token) :
    Yields mayHalt (Parser.many begins item fuel) tokens rest results := by
  induction results generalizing tokens fuel with
  | nil =>
      cases fit
      cases fuel with
      | zero => exact refl _ rest
      | succ fuel =>
          refine look peek ?_
          have stops : rest.head?.any begins = false := by
            cases ahead : rest.head? with
            | none => rfl
            | some token => exact (ends token ahead).1
          simp only [List.nil_append, stops]
          exact refl _ rest
  | cons first others induction =>
      obtain ⟨otherFuel, rfl⟩ : ∃ more, fuel = more + 1 :=
        Nat.exists_eq_add_of_le' (Nat.le_trans (Nat.succ_pos _) enough)
      rw [List.flatMap_cons] at fit
      obtain ⟨taken, later, rfl, firstFit, othersFit⟩ := fit.of_append
      obtain ⟨yieldsFirst, yieldsOthers⟩ := List.forall_mem_cons.1 yields
      obtain ⟨beginFirst, beginOthers⟩ := List.forall_mem_cons.1 begin
      obtain ⟨token, more, rfl, goesOn, _⟩ := beginFirst taken firstFit
      -- after the item comes what ends all items, or else the next one
      have followed : ∀ token ∈ (later ++ rest).head?, safe token := by
        cases others with
        | nil =>
            cases othersFit
            exact fun token ahead => (ends token ahead).2
        | cons second remaining =>
            rw [List.flatMap_cons] at othersFit
            obtain ⟨secondTaken, _, rfl, secondFit, _⟩ := othersFit.of_append
            obtain ⟨next, _, rfl, _, isSafe⟩ := beginOthers second List.mem_cons_self _ secondFit
            intro token ahead
            cases ahead
            exact isSafe
      refine look peek ?_
      simp only [List.cons_append, List.head?_cons, Option.any_some, goesOn, if_true]
      refine bind (yieldsFirst _ _ firstFit followed) ?_
      exact (induction yieldsOthers beginOthers othersFit (Nat.le_of_succ_le_succ enough)).map

/-- A token between the items of a list, or the one that closes it. -/
def Divides (token : Token) : Prop := token.kind = .comma ∨ token.kind = .rightParen

/-- After an item there is a comma or the closing parenthesis. -/
theorem divides_ahead
    (fit : Piece.AllFit (results.flatMap fun one => .mark .comma :: pieces one) tokens)
    (closes : ∃ paren more, rest = paren :: more ∧ paren.kind = .rightParen) :
    ∀ token ∈ (tokens ++ rest).head?, Divides token := by
  intro token ahead
  cases results with
  | nil =>
      cases fit
      obtain ⟨paren, more, rfl, isParen⟩ := closes
      cases ahead
      exact .inr isParen
  | cons first others =>
      rw [List.flatMap_cons] at fit
      obtain ⟨_, _, rfl, firstFit, _⟩ := fit.of_append
      obtain ⟨comma, _, rfl, isComma, _⟩ := firstFit.of_cons
      cases ahead
      exact .inl isComma.kind

theorem LeadsTo.itemsAfter {excess : SyntaxError} {count : Nat}
    (yields : YieldsEach mayHalt item pieces Divides results)
    (fit : Piece.AllFit (results.flatMap fun one => .mark .comma :: pieces one) tokens)
    (few : count + results.length ≤ itemLimit) (enough : results.length ≤ fuel)
    (closes : ∃ paren more, rest = paren :: more ∧ paren.kind = .rightParen) :
    Yields mayHalt (Parser.itemsAfter item excess fuel count) tokens rest results := by
  induction results generalizing tokens fuel count with
  | nil =>
      cases fit
      obtain ⟨paren, more, rfl, isParen⟩ := closes
      cases fuel with
      | zero => exact refl _ _
      | succ fuel =>
          refine declineThen ?_ (refl _ _)
          intro token ahead
          cases ahead
          simp [isParen]
  | cons first others induction =>
      obtain ⟨otherFuel, rfl⟩ : ∃ more, fuel = more + 1 :=
        Nat.exists_eq_add_of_le' (Nat.le_trans (Nat.succ_pos _) enough)
      rw [List.flatMap_cons] at fit
      obtain ⟨taken, later, rfl, firstFit, othersFit⟩ := fit.of_append
      obtain ⟨comma, inner, rfl, isComma, innerFit⟩ := firstFit.of_cons
      obtain ⟨yieldsFirst, yieldsOthers⟩ := List.forall_mem_cons.1 yields
      have below : ¬itemLimit ≤ count := by
        rw [List.length_cons] at few
        omega
      refine acceptThen (List.mem_singleton.2 isComma.kind) ?_
      simp only [below, if_false]
      refine bind (yieldsFirst _ _ innerFit (divides_ahead othersFit closes)) ?_
      have fewer : count + 1 + others.length ≤ itemLimit := by
        rw [List.length_cons] at few
        omega
      exact (induction yieldsOthers othersFit fewer (Nat.le_of_succ_le_succ enough)).map

theorem LeadsTo.items {excess : SyntaxError}
    (yields : YieldsEach mayHalt item pieces Divides results)
    (begin : BeginsEach (fun token => token.kind ≠ .rightParen) pieces results)
    (fit : Piece.AllFit (Piece.separated (results.map pieces)) tokens)
    (few : results.length ≤ itemLimit)
    (closes : ∃ paren more, rest = paren :: more ∧ paren.kind = .rightParen) :
    Yields mayHalt (Parser.items item excess) tokens rest results := by
  cases results with
  | nil =>
      cases fit
      obtain ⟨paren, more, rfl, isParen⟩ := closes
      refine look (isAhead _) ?_
      simp only [List.nil_append, List.head?_cons, Option.any_some, isParen, decide_true, if_true]
      exact refl _ _
  | cons first others =>
      rw [List.map_cons, Piece.separated, List.flatMap_map] at fit
      obtain ⟨taken, later, rfl, firstFit, othersFit⟩ := fit.of_append
      obtain ⟨yieldsFirst, yieldsOthers⟩ := List.forall_mem_cons.1 yields
      obtain ⟨token, more, rfl, notParen⟩ := begin first List.mem_cons_self taken firstFit
      have notClosed : ((token :: more ++ later ++ rest).head?.any (·.kind = .rightParen)) =
          false := by
        simp [notParen]
      refine look (isAhead _) ?_
      simp only [notClosed, Bool.false_eq_true, if_false]
      have divided := divides_ahead othersFit closes
      refine bind (yieldsFirst _ _ firstFit divided) ?_
      refine look remaining ?_
      have fewer : 1 + others.length ≤ itemLimit := by
        rw [List.length_cons] at few
        omega
      have enough : others.length ≤ (later ++ rest).length :=
        Nat.le_trans (othersFit.length_le fun _ _ => List.cons_ne_nil _ _)
          (List.length_append ▸ Nat.le_add_right _ _)
      exact (itemsAfter yieldsOthers othersFit fewer enough closes).map

end Items

end LoxLang.Parser

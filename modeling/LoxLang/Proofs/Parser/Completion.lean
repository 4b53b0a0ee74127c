import LoxLang.Proofs.Parser.Unlimited

/-!
# Completing what has been begun

Wherever a parser without recovery stops, what it has taken can be completed: there are
tokens after which it yields a result.  For a sequence the first part is completed, and
the second part is given some tokens that it accepts whatever has come before; so it is
enough to know one such list of tokens for each part.
-/

namespace LoxLang.Parser

variable {α β : Type}

/-- Both stop at the same syntax error. -/
def strictly : Terms := ⟨True, False, False, False⟩

/-- In front of these other tokens the parser reads the tokens to a result. -/
def Accepts (follow : List Token → Prop) (tokens : List Token) (parser : Parser α) : Prop :=
  ∀ others earlier, follow others → ∃ result added,
    parser ⟨tokens ++ others, earlier⟩ = .ok result ⟨others, added ++ earlier⟩

/-- Any other tokens. -/
def Always (_ : List Token) : Prop := True

/-- A token of this kind, to complete what has been begun. -/
def finishing (kind : TokenKind) : Token :=
  ⟨⟨1, 0⟩, kind, match kind with
    | .leftParen => "("
    | .rightParen => ")"
    | .leftBrace => "\x7b"
    | .rightBrace => "\x7d"
    | .dot => "."
    | .semicolon => ";"
    | _ => "x"⟩

/-- If the parser stops at a syntax error, what it has taken can be completed; but if it has not
taken anything, that is not said. -/
def MendsOn (follow domain : List Token → Prop) (parser : Parser α) : Prop :=
  ∀ cursor after, domain cursor.ahead → parser cursor = .error .syntaxError after →
    ∃ taken, cursor.ahead = taken ++ after.ahead ∧
      (taken = [] ∨ ∃ more, Accepts follow (taken ++ more) parser)

/-- The same on fewer than so many tokens. -/
abbrev Mends (follow : List Token → Prop) (bound : Nat) (parser : Parser α) : Prop :=
  MendsOn follow (Below bound) parser

namespace Accepts

variable {follow early : List Token → Prop} {tokens sample : List Token} {parser : Parser α}
  {next : α → Parser β} {kinds : List TokenKind} {branch : Option Token → Parser β}

theorem narrow (accepts : Accepts early tokens parser)
    (implies : ∀ others, follow others → early others) : Accepts follow tokens parser :=
  fun others earlier follows => accepts others earlier (implies others follows)

theorem pure (value : α) : Accepts follow [] (Pure.pure value) :=
  fun _ _ _ => ⟨value, [], rfl⟩

theorem bind (first : Accepts early tokens parser)
    (second : ∀ value, Accepts follow sample (next value))
    (joins : ∀ others, follow others → early (sample ++ others)) :
    Accepts follow (tokens ++ sample) (parser >>= next) := by
  intro others earlier follows
  obtain ⟨value, added, firstSucceeds⟩ := first (sample ++ others) earlier (joins others follows)
  obtain ⟨result, late, secondSucceeds⟩ := second value others (added ++ earlier) follows
  refine ⟨result, late ++ added, ?_⟩
  rw [List.append_assoc, bind_of_ok firstSucceeds, secondSucceeds, List.append_assoc]

theorem map {make : α → β} (accepts : Accepts follow tokens parser) :
    Accepts follow tokens (do return make (← parser)) := by
  have whole := accepts.bind (fun value => pure (make value)) fun _ => id
  rwa [List.append_nil] at whole

theorem peek (each : ∀ seen, Accepts follow tokens (branch seen)) :
    Accepts follow tokens (Parser.peek >>= branch) :=
  fun others earlier follows => each _ others earlier follows

theorem complain (about : Option Token) (error : SyntaxError) :
    Accepts follow [] (Parser.complain about error) :=
  fun _ _ _ => ⟨(), [⟨about, error⟩], rfl⟩

theorem accept {token : Token} (isOne : token.kind ∈ kinds)
    (accepts : Accepts follow tokens (branch (some token))) :
    Accepts follow (token :: tokens) (Parser.accept kinds >>= branch) := by
  intro others earlier follows
  obtain ⟨result, added, succeeds⟩ := accepts others earlier follows
  exact ⟨result, added, by rw [List.cons_append, bind_of_ok (accept_cons isOne _ _), succeeds]⟩

theorem decline (accepts : Accepts follow tokens (branch none))
    (unwanted : ∀ others, follow others → ∀ token ∈ (tokens ++ others).head?, token.kind ∉ kinds) :
    Accepts follow tokens (Parser.accept kinds >>= branch) := by
  intro others earlier follows
  obtain ⟨result, added, succeeds⟩ := accepts others earlier follows
  have declined : Parser.accept kinds ⟨tokens ++ others, earlier⟩ =
      .ok none ⟨tokens ++ others, earlier⟩ := accept_none (unwanted others follows)
  exact ⟨result, added, by rw [bind_of_ok declined, succeeds]⟩

theorem expect {kind : TokenKind} {what : String} {next : Token → Parser β} {token : Token}
    (isKind : token.kind = kind) (accepts : Accepts follow tokens (next token)) :
    Accepts follow (token :: tokens) (Parser.expect kind what >>= next) := by
  rw [expect_bind]
  exact accept (List.mem_singleton.2 isKind) accepts

theorem isAhead {kind : TokenKind} {branch : Bool → Parser β}
    (accepts : Accepts (AheadIs kind) [] (branch true)) :
    Accepts (AheadIs kind) [] (Parser.isAhead kind >>= branch) := by
  intro others earlier ahead
  obtain ⟨result, added, succeeds⟩ := accepts others earlier ahead
  obtain ⟨token, isHead, isKind⟩ := ahead
  rw [Option.mem_def] at isHead
  have seen : Parser.isAhead kind ⟨[] ++ others, earlier⟩ = .ok true ⟨[] ++ others, earlier⟩ := by
    show EStateM.Result.ok (others.head?.any (·.kind = kind)) _ = _
    simp [isHead, isKind]
  exact ⟨result, added, by rw [bind_of_ok seen, succeeds]⟩

theorem many {wanted : Token → Bool} {item : Parser α} :
    Accepts (fun others => others.head?.any wanted = false) []
      (remaining >>= fun fuel => Parser.many wanted item fuel) := by
  intro others earlier unwanted
  refine ⟨[], [], ?_⟩
  show Parser.many wanted item others.length ⟨others, earlier⟩ = _
  cases others with
  | nil => rfl
  | cons token rest =>
      have seen : Parser.peek ⟨token :: rest, earlier⟩ =
          .ok (token :: rest).head? ⟨token :: rest, earlier⟩ := rfl
      rw [List.length_cons]
      unfold Parser.many
      rw [bind_of_ok seen, unwanted]
      rfl

/-- A loop over tokens that cannot follow ends at once. -/
theorem loop {goesOn : Token → Bool} {σ : Type} {round : (σ → Parser α) → σ → Parser α}
    {loop : (fuel : Nat) → σ → Parser α} (circles : Circles goesOn round loop) {state : σ}
    (ends : ∀ again, Accepts follow [] (round again state)) :
    Accepts follow [] (remaining >>= fun fuel => loop fuel state) := by
  rw [congrFun circles.unfuelled state]
  exact ends _

end Accepts

namespace MendsOn

variable {follow early domain later : List Token → Prop} {parser : Parser α} {next : α → Parser β}

theorem mono {smaller : List Token → Prop} (mends : MendsOn follow domain parser)
    (implies : ∀ ahead, smaller ahead → domain ahead) : MendsOn follow smaller parser :=
  fun cursor after within => mends cursor after (implies _ within)

theorem pure (value : α) : MendsOn follow domain (Pure.pure value) :=
  fun _ _ _ halted => by cases halted

theorem fail (error : SyntaxError) : MendsOn follow domain (Parser.fail error : Parser α) := by
  intro cursor after _ halted
  cases halted
  exact ⟨[], rfl, .inl rfl⟩

theorem complain (about : Option Token) (error : SyntaxError) :
    MendsOn follow domain (Parser.complain about error) :=
  fun _ _ _ halted => by cases halted

/-- Where the first part stops, it is completed and the second part gets its sample.  Where the
second part stops, the first one reads again what it has read. -/
theorem bindOf (sample : List Token) (first : MendsOn early domain parser)
    (locally : RetracesOn strictly early domain parser parser)
    (second : ∀ value, MendsOn follow later (next value))
    (accepts : ∀ value, Accepts follow sample (next value))
    (joins : ∀ others, follow others → early (sample ++ others))
    (leads : ∀ cursor value middle, domain cursor.ahead →
      parser cursor = .ok value middle → later middle.ahead) :
    MendsOn follow domain (parser >>= next) := by
  intro cursor after within halted
  rcases bind_eq_error.1 halted with firstHalted | ⟨value, middle, firstSucceeded, nextHalted⟩
  · obtain ⟨taken, ahead, nothing | ⟨more, completed⟩⟩ := first cursor after within firstHalted
    · exact ⟨taken, ahead, .inl nothing⟩
    · refine ⟨taken, ahead, .inr ⟨more ++ sample, ?_⟩⟩
      rw [← List.append_assoc]
      exact completed.bind accepts joins
  · obtain ⟨_, left, _, leftAhead, _, same⟩ :=
      locally.onResult cursor value middle within firstSucceeded
    have rereads : ∀ others, SameAhead middle.ahead others ∨ early others →
        ∀ earlier, ∃ added, parser ⟨left ++ others, earlier⟩ = .ok value ⟨others, added ++ earlier⟩ :=
      fun others sees earlier => ⟨_, same others earlier ⟨False.elim, sees⟩⟩
    obtain ⟨right, rightAhead, completed⟩ := second value middle after
      (leads cursor value middle within firstSucceeded) nextHalted
    refine ⟨left ++ right, by rw [leftAhead, rightAhead, List.append_assoc], .inr ?_⟩
    cases right with
    | nil =>
        refine ⟨sample, fun others earlier follows => ?_⟩
        obtain ⟨added, again⟩ := rereads (sample ++ others) (.inr (joins others follows)) earlier
        obtain ⟨result, late, succeeds⟩ := accepts value others (added ++ earlier) follows
        refine ⟨result, late ++ added, ?_⟩
        rw [List.append_nil, List.append_assoc, bind_of_ok again, succeeds, List.append_assoc]
    | cons token right =>
        obtain ⟨more, completed⟩ := completed.resolve_left (List.cons_ne_nil _ _)
        refine ⟨more, fun others earlier follows => ?_⟩
        obtain ⟨added, again⟩ := rereads (token :: right ++ more ++ others)
          (.inl (by rw [rightAhead]; rfl)) earlier
        obtain ⟨result, late, succeeds⟩ := completed others (added ++ earlier) follows
        refine ⟨result, late ++ added, ?_⟩
        rw [List.append_assoc, List.append_assoc, ← List.append_assoc (token :: right),
          bind_of_ok again, succeeds, List.append_assoc]

theorem lookThen {branch : Option Token → Parser β}
    (each : ∀ seen, MendsOn follow (fun ahead => domain ahead ∧ ahead.head? = seen) (branch seen)) :
    MendsOn follow domain (peek >>= branch) := by
  intro cursor after within halted
  have goesOn : branch cursor.ahead.head? cursor = .error .syntaxError after := halted
  obtain ⟨taken, ahead, completed⟩ := each _ cursor after ⟨within, rfl⟩ goesOn
  refine ⟨taken, ahead, ?_⟩
  cases taken with
  | nil => exact .inl rfl
  | cons token taken =>
      obtain ⟨more, completed⟩ := completed.resolve_left (List.cons_ne_nil _ _)
      refine .inr ⟨more, fun others earlier follows => ?_⟩
      have seen : cursor.ahead.head? = some token := by rw [ahead]; rfl
      rw [seen] at completed
      exact completed others earlier follows

end MendsOn

namespace Mends

variable {follow early : List Token → Prop} {bound : Nat} {parser : Parser α}
  {next : α → Parser β}

theorem below {smaller : Nat} (mends : Mends follow bound parser) (le : smaller ≤ bound) :
    Mends follow smaller parser :=
  mends.mono fun _ few => Nat.lt_of_lt_of_le few le

theorem narrow (mends : Mends early bound parser)
    (implies : ∀ others, follow others → early others) : Mends follow bound parser := by
  intro cursor after few halted
  obtain ⟨taken, ahead, completed⟩ := mends cursor after few halted
  exact ⟨taken, ahead, completed.imp_right fun ⟨more, accepts⟩ => ⟨more, accepts.narrow implies⟩⟩

theorem nothing : Mends follow 0 parser := fun _ _ few => absurd few (Nat.not_lt_zero _)

theorem bind (sample : List Token) (first : Mends early bound parser)
    (locally : Retraces strictly early bound parser parser)
    (second : ∀ value, Mends follow bound (next value))
    (accepts : ∀ value, Accepts follow sample (next value))
    (joins : ∀ others, follow others → early (sample ++ others)) :
    Mends follow bound (parser >>= next) :=
  MendsOn.bindOf sample first locally second accepts joins fun _ _ _ few succeeded =>
    Nat.lt_of_le_of_lt (locally.onward.length_le succeeded) few

theorem map {make : α → β} (mends : Mends follow bound parser) :
    Mends follow bound (do return make (← parser)) := by
  intro cursor after few halted
  rcases bind_eq_error.1 halted with parserHalted | ⟨value, middle, _, impossible⟩
  · obtain ⟨taken, ahead, completed⟩ := mends cursor after few parserHalted
    exact ⟨taken, ahead, completed.imp_right fun ⟨more, accepts⟩ => ⟨more, accepts.map⟩⟩
  · cases impossible

/-- With a token the branch gets its sample; without one nothing has been taken yet. -/
theorem acceptThen {kinds : List TokenKind} {branch : Option Token → Parser β}
    (absent : Mends follow bound (branch none))
    (present : ∀ token, token.kind ∈ kinds → Mends follow (bound - 1) (branch (some token)))
    (samples : ∀ token, token.kind ∈ kinds →
      ∃ sample, Accepts follow sample (branch (some token))) :
    Mends follow bound (accept kinds >>= branch) := by
  intro cursor after few halted
  rcases bind_eq_error.1 halted with impossible | ⟨found, middle, accepted, goesOn⟩
  · unfold accept at impossible
    split at impossible
    · cases impossible
    · split at impossible <;> cases impossible
  rcases accept_eq_ok accepted with ⟨token, rfl, isOne, isAhead, _⟩ | ⟨rfl, rfl, isNone⟩
  · obtain ⟨taken, ahead, completed⟩ := present token isOne middle after (few.tail isAhead) goesOn
    refine ⟨token :: taken, by rw [isAhead, ahead]; rfl, .inr ?_⟩
    rcases completed with rfl | ⟨more, completed⟩
    · obtain ⟨sample, accepts⟩ := samples token isOne
      exact ⟨sample, .accept isOne accepts⟩
    · exact ⟨more, .accept isOne completed⟩
  · obtain ⟨taken, ahead, completed⟩ := absent _ after few goesOn
    refine ⟨taken, ahead, ?_⟩
    cases taken with
    | nil => exact .inl rfl
    | cons token taken =>
        obtain ⟨more, completed⟩ := completed.resolve_left (List.cons_ne_nil _ _)
        refine .inr ⟨more, completed.decline fun others _ => ?_⟩
        rw [ahead] at isNone
        exact isNone

theorem expectThen {kind : TokenKind} {what : String} {next : Token → Parser β}
    (sample : List Token) (goesOn : ∀ token, Mends follow bound (next token))
    (accepts : ∀ token, Accepts follow sample (next token)) :
    Mends follow bound (Parser.expect kind what >>= next) := by
  rw [expect_bind]
  exact acceptThen (.fail _) (fun token _ => (goesOn token).below (Nat.sub_le bound 1))
    fun token _ => ⟨sample, accepts token⟩

/-- A token that is only looked at has not been taken. -/
theorem unlessAhead {kind : TokenKind} {branch : Bool → Parser β}
    (each : ∀ isAhead, Mends follow bound (branch isAhead)) :
    Mends follow bound (isAhead kind >>= branch) := by
  have looks : MendsOn follow (Below bound)
      (peek >>= fun seen => branch (seen.any (·.kind = kind))) :=
    .lookThen fun seen => (each (seen.any (·.kind = kind))).mono fun _ => And.left
  exact looks

end Mends

end LoxLang.Parser

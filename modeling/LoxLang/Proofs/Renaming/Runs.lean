import LoxLang.Evaluation
import LoxLang.Proofs.Renaming.Machines

/-!
# Running renamed programs

A renamed program does what the program does.  Wherever the run looks a local name
up it goes to the frame at the name's distance, and that frame is renamed like the
name; the names of the top level are the same.
-/

namespace LoxLang

variable {r : Renaming} {marking later : Marking} {frame : FrameId} {marks : List Bool}

namespace Run

namespace Simulates

section Operators

variable {op opTwin : Token} {left leftTwin right rightTwin : Value}

theorem applyUnary (keeps : r.Keeps op opTwin) (related : right.Renamed r marking rightTwin) :
    Simulates r marking frame (Value.Renamed r) (Run.applyUnary op right)
      (Run.applyUnary opTwin rightTwin) := by
  unfold Run.applyUnary
  rw [r.kind keeps.near]
  split
  · rw [related.isTruthy]
    exact pure .bool
  · cases related with
    | number => exact pure .number
    | _ => exact fault keeps.near _

theorem add (keeps : r.Keeps op opTwin) (leftRelated : left.Renamed r marking leftTwin)
    (rightRelated : right.Renamed r marking rightTwin) :
    Simulates r marking frame (Value.Renamed r) (Run.add op left right)
      (Run.add opTwin leftTwin rightTwin) := by
  cases leftRelated with
  | number =>
      cases rightRelated with
      | number => exact pure .number
      | _ => exact fault keeps.near _
  | text =>
      cases rightRelated with
      | text => exact pure .text
      | _ => exact fault keeps.near _
  | _ => exact fault keeps.near _

/-- The operators on numbers make numbers and truth values. -/
theorem numberOperator_renamed {kind : TokenKind} {operator : Float → Float → Value}
    (found : numberOperator kind = some operator) (left right : Float) :
    (operator left right).Renamed r marking (operator left right) := by
  unfold numberOperator at found
  split at found <;> cases found
  · exact .number
  · exact .number
  · exact .number
  all_goals exact .bool

theorem applyToNumbers (keeps : r.Keeps op opTwin) (leftRelated : left.Renamed r marking leftTwin)
    (rightRelated : right.Renamed r marking rightTwin) :
    Simulates r marking frame (Value.Renamed r) (Run.applyToNumbers op left right)
      (Run.applyToNumbers opTwin leftTwin rightTwin) := by
  cases leftRelated with
  | number =>
      cases rightRelated with
      | number =>
          unfold Run.applyToNumbers
          rw [r.kind keeps.near]
          cases found : numberOperator op.kind with
          | none => exact defect .noOperator
          | some operator => exact pure (numberOperator_renamed found _ _)
      | _ => exact fault keeps.near _
  | _ => exact fault keeps.near _

theorem applyBinary (keeps : r.Keeps op opTwin) (leftRelated : left.Renamed r marking leftTwin)
    (rightRelated : right.Renamed r marking rightTwin) :
    Simulates r marking frame (Value.Renamed r) (Run.applyBinary op left right)
      (Run.applyBinary opTwin leftTwin rightTwin) := by
  unfold Run.applyBinary
  rw [r.kind keeps.near]
  split
  · rw [leftRelated.isEqual rightRelated]
    exact pure .bool
  · rw [leftRelated.isEqual rightRelated]
    exact pure .bool
  · exact add keeps leftRelated rightRelated
  · exact applyToNumbers keeps leftRelated rightRelated

theorem decides_eq (keeps : r.Keeps op opTwin) (related : left.Renamed r marking leftTwin) :
    decides opTwin leftTwin = decides op left := by
  unfold decides
  rw [r.kind keeps.near, related.isTruthy]

end Operators

section Functions

variable {execute executeTwin : Stmt Site → Run Completion}

/-- Values that stay related while the runs go on. -/
abbrev AllValues (r : Renaming) (marking : Marking) : List Value → List Value → Prop :=
  List.Forall₂ (Value.Renamed r marking)

theorem allValues_mono {values twins : List Value} (related : AllValues r marking values twins)
    (grows : marking <+: later) : AllValues r later values twins :=
  List.Forall₂.imp (fun _ _ same => same.mono grows) related

theorem makeClosure {decl twin : FunctionDecl Site} {inner : FrameId} (between : List Bool)
    (known : marking[inner]? = some marks) (renamed : decl.Renamed r (between ++ marks) twin)
    (isInitializer : Bool) :
    Simulates r marking frame (Closure.Renamed r between)
      (Run.makeClosure decl inner isInitializer) (Run.makeClosure twin inner isInitializer) := by
  apply bindSame freshSerial
  intro later serial grows
  exact pure ⟨rfl, rfl, rfl, marks, Marking.later grows known, renamed⟩

/-- The frame around the body of a bound method has an object, and is not marked. -/
theorem bind_renamed {method twin : Closure} {object objectTwin : Value}
    (methods : Closure.MethodRenamed r marking method twin)
    (objects : object.Renamed r marking objectTwin) :
    Simulates r marking frame (Closure.Renamed r []) (Run.bind method object)
      (Run.bind twin objectTwin) := by
  obtain ⟨marks, known, renamed⟩ := methods.decl
  unfold Run.bind
  rw [methods.frame, methods.isInitializer]
  apply bind (childOf known false)
  rintro later inner _ grows ⟨rfl, innerKnown⟩
  apply bindSame
  · exact defineIn innerKnown r.apply_this.symm r.allows_this (objects.mono grows)
  · intro last _ further
    exact makeClosure [] (Marking.later further innerKnown) renamed method.isInitializer

theorem defineParams {inner : FrameId} {mark : Bool} {params paramsTwin : List Token}
    {args argsTwin : List Value} (known : marking[inner]? = some (mark :: marks))
    (names : List.Forall₂ (r.Names mark) params paramsTwin)
    (related : AllValues r marking args argsTwin) :
    Simulates r marking frame Same (Run.defineParams inner params args)
      (Run.defineParams inner paramsTwin argsTwin) := by
  induction names generalizing marking args argsTwin with
  | nil =>
      cases related with
      | nil => exact pure rfl
      | cons first rest => exact pure rfl
  | cons name others induction =>
      cases related with
      | nil => exact pure rfl
      | cons first rest =>
          apply bindSame (defineIn known name.lexeme name.allowed first)
          intro later _ grows
          exact induction (Marking.later grows known) (allValues_mono rest grows)

theorem evalEach {evaluate evaluateTwin : Expr Site → Run Value}
    (evaluates : ∀ later e twin, marking <+: later → e.Renamed r marks twin →
      Simulates r later frame (Value.Renamed r) (evaluate e) (evaluateTwin twin))
    {args argsTwin : List (Expr Site)} (renamed : Expr.AllRenamed r marks args argsTwin) :
    Simulates r marking frame (AllValues r) (Run.evalEach evaluate args)
      (Run.evalEach evaluateTwin argsTwin) := by
  induction args generalizing marking argsTwin with
  | nil =>
      cases renamed with
      | nil => exact pure .nil
  | cons first rest induction =>
      cases renamed with
      | cons firstRenamed restRenamed =>
          apply bind (evaluates marking _ _ (List.prefix_refl _) firstRenamed)
          intro later value valueTwin grows related
          apply bind
          · apply induction _ restRenamed
            intro last e twin further same
            exact evaluates last e twin (grows.trans further) same
          · intro last values valuesTwin further others
            exact pure (.cons (related.mono further) others)

/-- What is assumed of the execution of statements with less room: renamed statements simulate
each other, in whatever frame. -/
def ExecutesAlike (r : Renaming) (execute executeTwin : Stmt Site → Run Completion) : Prop :=
  ∀ (marking : Marking) (frame : FrameId) (marks : List Bool) (s twin : Stmt Site),
    marking[frame]? = some marks → s.Renamed r marks twin →
      Simulates r marking frame (Completion.Renamed r) (execute s) (executeTwin twin)

theorem execEach (executes : ExecutesAlike r execute executeTwin) {body twin : List (Stmt Site)}
    (known : marking[frame]? = some marks) (renamed : Stmt.AllRenamed r marks body twin) :
    Simulates r marking frame (Completion.Renamed r) (Run.execEach execute body)
      (Run.execEach executeTwin twin) := by
  induction body generalizing marking twin with
  | nil =>
      cases renamed with
      | nil => exact pure .normal
  | cons first rest induction =>
      cases renamed with
      | cons firstRenamed restRenamed =>
          apply bind (executes marking frame marks _ _ known firstRenamed)
          intro later completion completionTwin grows related
          cases related with
          | normal => exact induction (Marking.later grows known) restRenamed
          | returned same => exact pure (.returned same)

theorem iterate {condition conditionTwin : Run Value} {body bodyTwin : Run Completion}
    (conditions : ∀ later, marking <+: later →
      Simulates r later frame (Value.Renamed r) condition conditionTwin)
    (bodies : ∀ later, marking <+: later →
      Simulates r later frame (Completion.Renamed r) body bodyTwin) (patience : Nat) :
    Simulates r marking frame (Completion.Renamed r) (Run.iterate condition body patience)
      (Run.iterate conditionTwin bodyTwin patience) := by
  induction patience generalizing marking with
  | zero => exact throw .outOfPatience
  | succ patience induction =>
      apply bind (conditions marking (List.prefix_refl _))
      intro later value valueTwin grows related
      rw [related.isTruthy]
      split
      · apply bind (bodies later grows)
        intro last completion completionTwin further same
        cases same with
        | normal =>
            have reaches := grows.trans further
            exact induction (fun reached beyond => conditions reached (reaches.trans beyond))
              fun reached beyond => bodies reached (reaches.trans beyond)
        | returned same => exact pure (.returned same)
      · exact pure .normal

theorem callClosure (executes : ExecutesAlike r execute executeTwin) {closure twin : Closure}
    {args argsTwin : List Value} (renamed : closure.Renamed r [] marking twin)
    (related : AllValues r marking args argsTwin) :
    Simulates r marking frame (Value.Renamed r) (Run.callClosure execute closure args)
      (Run.callClosure executeTwin twin argsTwin) := by
  obtain ⟨serial, decl, home, isInitializer⟩ := closure
  obtain ⟨serialTwin, declTwin, homeTwin, isInitializerTwin⟩ := twin
  obtain ⟨sameSerial, sameHome, sameKind, marks, known, declRenamed⟩ := renamed
  dsimp only at sameSerial sameHome sameKind known declRenamed
  subst sameSerial sameHome sameKind
  cases declRenamed with
  | @mk _ name nameTwin params paramsTwin body twin mark keeps names bodies =>
      apply bind (childOf known mark)
      rintro later inner _ grows ⟨rfl, innerKnown⟩
      apply bindSame (defineParams innerKnown names (allValues_mono related grows))
      intro last _ further
      have innerLast := Marking.later further innerKnown
      apply bind (inFrame (execEach executes innerLast bodies))
      intro final completion completionTwin beyond same
      dsimp only
      split
      · apply lookUpAt (Marking.later (grows.trans (further.trans beyond)) known)
        · exact r.apply_this
        · exact r.allows_this
      · cases same with
        | normal => exact pure .nil
        | returned value => exact pure value

theorem callClass (executes : ExecutesAlike r execute executeTwin) {cls twin : ClassValue}
    {args argsTwin : List Value} (renamed : cls.Renamed r marking twin)
    (related : AllValues r marking args argsTwin) :
    Simulates r marking frame (Value.Renamed r) (Run.callClass execute cls args)
      (Run.callClass executeTwin twin argsTwin) := by
  apply bind (newObject renamed)
  intro later object objectTwin grows objects
  have found := (renamed.mono grows).method? initializerName
  unfold ClassValue.initializer?
  generalize cls.method? initializerName = initializer at found
  generalize twin.method? initializerName = initializerTwin at found
  cases found with
  | none => exact pure objects
  | some methods =>
      apply bind (bind_renamed methods objects)
      intro last bound boundTwin further same
      have argsLast := allValues_mono related (grows.trans further)
      apply bind (callClosure executes same argsLast)
      intro final _ _ beyond _
      exact pure (objects.mono (further.trans beyond))

theorem callWith {paren parenTwin : Token} {args argsTwin : List Value} {body bodyTwin : Run Value}
    (keeps : r.Keeps paren parenTwin) (arity : Nat) (related : AllValues r marking args argsTwin)
    (bodies : Simulates r marking frame (Value.Renamed r) body bodyTwin) :
    Simulates r marking frame (Value.Renamed r) (Run.callWith paren arity args body)
      (Run.callWith parenTwin arity argsTwin bodyTwin) := by
  unfold Run.callWith
  rw [← related.length_eq]
  split
  · exact catchOverflow keeps.near bodies
  · exact fault keeps.near _

theorem callValue (host : Host) (executes : ExecutesAlike r execute executeTwin)
    {paren parenTwin : Token} {callee twin : Value} {args argsTwin : List Value}
    (keeps : r.Keeps paren parenTwin) (callees : callee.Renamed r marking twin)
    (related : AllValues r marking args argsTwin) :
    Simulates r marking frame (Value.Renamed r) (Run.callValue host execute paren callee args)
      (Run.callValue host executeTwin parenTwin twin argsTwin) := by
  cases callees with
  | primitive => exact callWith keeps _ related (readClock host)
  | closure same =>
      simp only [Run.callValue]
      rw [same.arity]
      exact callWith keeps _ related (callClosure executes same related)
  | «class» same =>
      simp only [Run.callValue]
      rw [same.arity]
      exact callWith keeps _ related (callClass executes same related)
  | _ => exact fault keeps.near _

end Functions

section Properties

variable {name nameTwin : Token}

theorem property {object objectTwin : Value} (objects : object.Renamed r marking objectTwin)
    (keeps : r.Keeps name nameTwin) :
    Simulates r marking frame (Value.Renamed r) (Run.property object name)
      (Run.property objectTwin nameTwin) := by
  unfold Run.property
  rw [keeps.lexeme_eq]
  cases objects with
  | @object id cls twin classes =>
      apply bind (field? id name.lexeme)
      intro later field fieldTwin grows found
      cases found with
      | some related => exact pure related
      | none =>
          have methods := (classes.mono grows).method? name.lexeme
          dsimp only
          generalize cls.method? name.lexeme = method at methods
          generalize twin.method? name.lexeme = methodTwin at methods
          cases methods with
          | none => exact fault keeps.near _
          | some same =>
              apply bind (bind_renamed same (.object (classes.mono grows)))
              exact fun last bound boundTwin _ related => pure (.closure related)
  | _ => exact fault keeps.near _

theorem superMethod (known : marking[frame]? = some marks) (keeps : r.Keeps name nameTwin)
    (site : Site) :
    Simulates r marking frame (Value.Renamed r) (Run.superMethod name site)
      (Run.superMethod nameTwin site) := by
  unfold Run.superMethod
  rw [keeps.lexeme_eq]
  cases site with
  | none => exact defect .superWithoutSite
  | some distance =>
      apply bind here
      rintro first found _ firstGrows ⟨rfl, rfl⟩
      have firstKnown := Marking.later firstGrows known
      apply bind (lookUpAt firstKnown r.apply_super r.allows_super)
      intro second parent parentTwin secondGrows parents
      have secondKnown := Marking.later secondGrows firstKnown
      apply bind (lookUpAt secondKnown r.apply_this r.allows_this)
      intro later object objectTwin grows objects
      cases parents with
      | @«class» cls twin classes =>
          have methods := (classes.mono grows).method? name.lexeme
          dsimp only
          generalize cls.method? name.lexeme = method at methods
          generalize twin.method? name.lexeme = methodTwin at methods
          cases methods with
          | none => exact fault keeps.near _
          | some same =>
              apply bind (bind_renamed same objects)
              exact fun last bound boundTwin _ related => pure (.closure related)
      | _ => exact defect .superNotClass

end Properties

section Classes

/-- There is a superclass on both sides or on neither. -/
abbrev ParentsRenamed (r : Renaming) (marking : Marking) :
    Option ClassValue → Option ClassValue → Prop :=
  Option.Rel (ClassValue.Renamed r marking)

theorem superclassOf {parent parentTwin : Token} {site : Site}
    (known : marking[frame]? = some marks)
    (names : r.Names (markedAt marks site) parent parentTwin) :
    Simulates r marking frame (fun later found foundTwin =>
        found.isSome = true ∧ ParentsRenamed r later found foundTwin)
      (Run.superclass? (some ⟨parent, site⟩)) (Run.superclass? (some ⟨parentTwin, site⟩)) := by
  apply bind (lookUp known names)
  intro later value valueTwin grows related
  cases related with
  | «class» classes => exact pure ⟨rfl, .some classes⟩
  | _ => exact fault names.near _

theorem methodTable {inner : FrameId} {methods methodsTwin : List (FunctionDecl Site)}
    {table tableTwin : Table Closure} (known : marking[inner]? = some marks)
    (tables : Table.Renamed r false (Closure.MethodRenamed r marking) table tableTwin)
    (renamed : FunctionDecl.AllRenamed r (false :: marks) methods methodsTwin) :
    Simulates r marking frame (fun later => Table.Renamed r false (Closure.MethodRenamed r later))
      (Run.methodTable inner table methods) (Run.methodTable inner tableTwin methodsTwin) := by
  induction methods generalizing marking table tableTwin methodsTwin with
  | nil =>
      cases renamed with
      | nil => exact pure tables
  | cons first rest induction =>
      cases renamed with
      | cons firstRenamed restRenamed =>
          unfold Run.methodTable
          rw [firstRenamed.name.lexeme_eq]
          apply bind (makeClosure [false] known firstRenamed _)
          intro later method methodTwin grows related
          have grown := tables.mono fun _ _ same => Closure.Renamed.mono same grows
          have inserted := grown.insert_unmarked first.name.lexeme related
          exact induction (Marking.later grows known) inserted restRenamed

/-- The frame around the methods has the scope of `super`, if there is one, as its own. -/
theorem methodFrame {inner : FrameId} {parent twin : Option ClassValue}
    (known : marking[inner]? = some marks) (parents : ParentsRenamed r marking parent twin) :
    Simulates r marking frame (fun later made other => other = made ∧
        later[made]? = some (if parent.isSome then false :: marks else marks))
      (Run.methodFrame inner parent) (Run.methodFrame inner twin) := by
  cases parents with
  | none => exact pure ⟨rfl, known⟩
  | some classes =>
      apply bind (childOf known false)
      rintro later made _ grows ⟨rfl, madeKnown⟩
      have related : Value.Renamed r later _ _ := .class (classes.mono grows)
      apply bindSame (defineIn madeKnown r.apply_super.symm r.allows_super related)
      intro last _ further
      exact pure ⟨rfl, Marking.later further madeKnown⟩

theorem declareClass {name nameTwin : Token} {parent parentTwin : Option (Superclass Site)}
    {methods methodsTwin : List (FunctionDecl Site)} {derived : Bool}
    (known : marking[frame]? = some marks)
    (declares : r.Declares (markedAt marks (some 0)) name nameTwin)
    (parents : Simulates r marking frame (fun later found foundTwin =>
      found.isSome = derived ∧ ParentsRenamed r later found foundTwin)
      (Run.superclass? parent) (Run.superclass? parentTwin))
    (renamed : FunctionDecl.AllRenamed r (false :: if derived then false :: marks else marks)
      methods methodsTwin) :
    Simulates r marking frame Same (Run.declareClass name parent methods)
      (Run.declareClass nameTwin parentTwin methodsTwin) := by
  have names := declares.names
  apply bind parents
  rintro first found foundTwin firstGrows ⟨sameSome, related⟩
  apply bind here
  rintro second outer _ secondGrows ⟨rfl, rfl⟩
  have secondKnown := Marking.later (firstGrows.trans secondGrows) known
  apply bindSame (defineIn secondKnown names.lexeme names.allowed .nil)
  intro third _ thirdGrows
  have relatedThird : ParentsRenamed r third found foundTwin := by
    cases related with
    | none => exact .none
    | some classes => exact .some (classes.mono (secondGrows.trans thirdGrows))
  apply bind (methodFrame (Marking.later thirdGrows secondKnown) relatedThird)
  rintro fourth inner _ fourthGrows ⟨rfl, innerKnown⟩
  rw [sameSome] at innerKnown
  apply bind (methodTable innerKnown Table.Renamed.empty renamed)
  intro fifth table tableTwin fifthGrows tables
  apply bindSame freshSerial
  intro last serial lastGrows
  have reaches := thirdGrows.trans (fourthGrows.trans (fifthGrows.trans lastGrows))
  apply defineIn (Marking.later reaches secondKnown) names.lexeme names.allowed
  apply Value.Renamed.class
  refine .cons ⟨rfl, declares.keeps.lexeme_eq, ?_⟩ ?_
  · exact tables.mono fun _ _ same => Closure.Renamed.mono same lastGrows
  · cases relatedThird with
    | none => exact .nil
    | some classes => exact classes.mono (fourthGrows.trans (fifthGrows.trans lastGrows))

end Classes

/-- Renamed expressions simulate each other, in whatever frame. -/
def EvaluatesAlike (r : Renaming) (evaluate evaluateTwin : Expr Site → Run Value) : Prop :=
  ∀ (marking : Marking) (frame : FrameId) (marks : List Bool) (e twin : Expr Site),
    marking[frame]? = some marks → e.Renamed r marks twin →
      Simulates r marking frame (Value.Renamed r) (evaluate e) (evaluateTwin twin)

section Room

variable {host : Host} {room : Nat}

theorem eval_next (evaluates : EvaluatesAlike r (eval host room) (eval host room))
    (executes : ExecutesAlike r (exec host room) (exec host room)) :
    EvaluatesAlike r (eval host (room + 1)) (eval host (room + 1)) := by
  intro marking frame marks e twin known renamed
  cases renamed with
  | @literal value => cases value <;> exact pure (by constructor)
  | grouping inner => exact evaluates _ _ _ _ _ known inner
  | unary keeps operand =>
      apply bind (evaluates _ _ _ _ _ known operand)
      intro later value valueTwin grows related
      exact applyUnary keeps related
  | binary keeps left right =>
      apply bind (evaluates _ _ _ _ _ known left)
      intro later leftValue leftTwin grows leftRelated
      apply bind (evaluates _ _ _ _ _ (Marking.later grows known) right)
      intro last rightValue rightTwin further rightRelated
      exact applyBinary keeps (leftRelated.mono further) rightRelated
  | logical keeps left right =>
      apply bind (evaluates _ _ _ _ _ known left)
      intro later leftValue leftTwin grows leftRelated
      rw [decides_eq keeps leftRelated]
      split
      · exact pure leftRelated
      · exact evaluates _ _ _ _ _ (Marking.later grows known) right
  | «variable» names => exact lookUp known names
  | assign names value =>
      apply bind (evaluates _ _ _ _ _ known value)
      intro later found foundTwin grows related
      apply bindSame (store (Marking.later grows known) names related)
      intro last _ further
      exact pure (related.mono further)
  | call keeps callee args =>
      apply bind (evaluates _ _ _ _ _ known callee)
      intro later function functionTwin grows functions
      have laterKnown := Marking.later grows known
      apply bind
      · apply evalEach _ args
        intro reached e twin further renamed
        exact evaluates _ _ _ _ _ (Marking.later further laterKnown) renamed
      · intro last values valuesTwin further related
        exact callValue host executes keeps (functions.mono further) related
  | get keeps object =>
      apply bind (evaluates _ _ _ _ _ known object)
      intro later found foundTwin grows related
      exact property related keeps
  | set keeps object value =>
      apply bind (evaluates _ _ _ _ _ known object)
      intro later found foundTwin grows objects
      cases objects with
      | object classes =>
          apply bind (evaluates _ _ _ _ _ (Marking.later grows known) value)
          intro last stored storedTwin further related
          rw [keeps.lexeme_eq]
          apply bindSame (setField _ _ related)
          intro final _ beyond
          exact pure (related.mono beyond)
      | _ => exact fault keeps.near _
  | this names => exact lookUp known names
  | super names keeps => exact superMethod known keeps _

theorem exec_next (evaluates : EvaluatesAlike r (eval host room) (eval host room))
    (executes : ExecutesAlike r (exec host room) (exec host room)) :
    ExecutesAlike r (exec host (room + 1)) (exec host (room + 1)) := by
  intro marking frame marks s twin known renamed
  cases renamed with
  | expression value =>
      apply bind (evaluates _ _ _ _ _ known value)
      intro later found foundTwin grows related
      exact pure .normal
  | print value =>
      apply bind (evaluates _ _ _ _ _ known value)
      intro later found foundTwin grows related
      rw [related.shown]
      apply bindSame (emit _)
      intro last _ further
      exact pure .normal
  | var names initializer =>
      cases initializer with
      | none =>
          apply bindSame (defineHere known names.lexeme names.allowed .nil)
          intro later _ grows
          exact pure .normal
      | some value =>
          apply bind (evaluates _ _ _ _ _ known value)
          intro later found foundTwin grows related
          have laterKnown := Marking.later grows known
          apply bindSame (defineHere laterKnown names.lexeme names.allowed related)
          intro last _ further
          exact pure .normal
  | block mark body =>
      apply bind here
      rintro first found _ firstGrows ⟨rfl, rfl⟩
      apply bind (childOf (Marking.later firstGrows known) mark)
      rintro later inner _ grows ⟨rfl, innerKnown⟩
      exact inFrame (execEach executes innerKnown body)
  | conditional condition branch =>
      apply bind (evaluates _ _ _ _ _ known condition)
      intro later found foundTwin grows related
      rw [related.isTruthy]
      split
      · exact executes _ _ _ _ _ (Marking.later grows known) branch
      · exact pure .normal
  | conditionalElse condition branch other =>
      apply bind (evaluates _ _ _ _ _ known condition)
      intro later found foundTwin grows related
      rw [related.isTruthy]
      split
      · exact executes _ _ _ _ _ (Marking.later grows known) branch
      · exact executes _ _ _ _ _ (Marking.later grows known) other
  | loop condition body =>
      apply iterate
      · intro later grows
        exact evaluates _ _ _ _ _ (Marking.later grows known) condition
      · intro later grows
        exact executes _ _ _ _ _ (Marking.later grows known) body
  | function declares decl =>
      apply bind here
      rintro first found _ firstGrows ⟨rfl, rfl⟩
      have firstKnown := Marking.later firstGrows known
      apply bind (makeClosure [] firstKnown decl false)
      intro later closure closureTwin grows related
      have names := declares.names
      apply bindSame (defineHere (Marking.later grows firstKnown) names.lexeme names.allowed
        (.closure related))
      intro last _ further
      exact pure .normal
  | «return» keeps value =>
      cases value with
      | none => exact pure (.returned .nil)
      | some value =>
          apply bind (evaluates _ _ _ _ _ known value)
          intro later found foundTwin grows related
          exact pure (.returned related)
  | plainClass declares methods =>
      have parents : Simulates r marking frame (fun later found foundTwin =>
          found.isSome = false ∧ ParentsRenamed r later found foundTwin)
          (Run.superclass? none) (Run.superclass? none) := pure ⟨rfl, .none⟩
      apply bindSame (declareClass known declares parents methods)
      intro later _ grows
      exact pure .normal
  | derivedClass declares names methods =>
      have parents := superclassOf known names
      apply bindSame (declareClass known declares parents methods)
      intro later _ grows
      exact pure .normal
  | lost => exact defect .lostStatement

/-- Renamed expressions and statements simulate each other. -/
theorem runs_alike (host : Host) (room : Nat) :
    EvaluatesAlike r (eval host room) (eval host room) ∧
      ExecutesAlike r (exec host room) (exec host room) := by
  induction room with
  | zero => exact ⟨fun _ _ _ _ _ _ _ => throw .overflow, fun _ _ _ _ _ _ _ => throw .overflow⟩
  | succ room induction =>
      obtain ⟨evaluates, executes⟩ := induction
      exact ⟨eval_next evaluates executes, exec_next evaluates executes⟩

end Room

end Simulates

end Run

end LoxLang

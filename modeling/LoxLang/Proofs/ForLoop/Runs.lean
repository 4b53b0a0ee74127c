import LoxLang.Evaluation
import LoxLang.Proofs.ForLoop.Machines

/-!
# Running trees without some scopes

Trees that agree do the same.  Where the run goes the distance to a name along the
frames, on either side, it comes to a frame that is kept and to the place of that
frame; and only such frames are ever bound in.
-/

namespace LoxLang

variable {matching later : Matching} {frame place : FrameId} {kept : List Bool}

namespace Run

namespace Mirrors

section Operators

variable {left leftTwin right rightTwin : Value}

theorem applyUnary (op : Token) (related : right.Mirrored matching rightTwin) :
    Mirrors matching frame place Value.Mirrored (Run.applyUnary op right)
      (Run.applyUnary op rightTwin) := by
  unfold Run.applyUnary
  split
  · rw [related.isTruthy]
    exact pure .bool
  · cases related with
    | number => exact pure .number
    | _ => exact fault op _

theorem add (op : Token) (leftRelated : left.Mirrored matching leftTwin)
    (rightRelated : right.Mirrored matching rightTwin) :
    Mirrors matching frame place Value.Mirrored (Run.add op left right)
      (Run.add op leftTwin rightTwin) := by
  cases leftRelated with
  | number =>
      cases rightRelated with
      | number => exact pure .number
      | _ => exact fault op _
  | text =>
      cases rightRelated with
      | text => exact pure .text
      | _ => exact fault op _
  | _ => exact fault op _

/-- The operators on numbers make numbers and truth values. -/
theorem numberOperator_mirrored {kind : TokenKind} {operator : Float → Float → Value}
    (found : numberOperator kind = some operator) (left right : Float) :
    (operator left right).Mirrored matching (operator left right) := by
  unfold numberOperator at found
  split at found <;> cases found
  · exact .number
  · exact .number
  · exact .number
  all_goals exact .bool

theorem applyToNumbers (op : Token) (leftRelated : left.Mirrored matching leftTwin)
    (rightRelated : right.Mirrored matching rightTwin) :
    Mirrors matching frame place Value.Mirrored (Run.applyToNumbers op left right)
      (Run.applyToNumbers op leftTwin rightTwin) := by
  cases leftRelated with
  | number =>
      cases rightRelated with
      | number =>
          unfold Run.applyToNumbers
          cases found : numberOperator op.kind with
          | none => exact defect .noOperator
          | some operator => exact pure (numberOperator_mirrored found _ _)
      | _ => exact fault op _
  | _ => exact fault op _

theorem applyBinary (op : Token) (leftRelated : left.Mirrored matching leftTwin)
    (rightRelated : right.Mirrored matching rightTwin) :
    Mirrors matching frame place Value.Mirrored (Run.applyBinary op left right)
      (Run.applyBinary op leftTwin rightTwin) := by
  unfold Run.applyBinary
  split
  · rw [leftRelated.isEqual rightRelated]
    exact pure .bool
  · rw [leftRelated.isEqual rightRelated]
    exact pure .bool
  · exact add op leftRelated rightRelated
  · exact applyToNumbers op leftRelated rightRelated

theorem decides_eq (op : Token) (related : left.Mirrored matching leftTwin) :
    decides op leftTwin = decides op left := by
  unfold decides
  rw [related.isTruthy]

end Operators

section Functions

variable {execute executeTwin : Stmt Site → Run Completion}

/-- Values that mirror each other, one by one. -/
abbrev AllValues (matching : Matching) : List Value → List Value → Prop :=
  List.Forall₂ (Value.Mirrored matching)

theorem allValues_mono {values twins : List Value} (related : AllValues matching values twins)
    (grows : matching <+: later) : AllValues later values twins :=
  related.imp fun _ _ same => same.mono grows

theorem makeClosure {decl twin : FunctionDecl Site} {inner innerPlace : FrameId}
    (between : List Bool) (known : matching[inner]? = some ⟨innerPlace, kept⟩)
    (isKept : Counterpart.IsKept ⟨innerPlace, kept⟩)
    (agrees : (Part.method decl).Agrees (between ++ kept) (.method twin)) (isInitializer : Bool) :
    Mirrors matching frame place (Closure.Mirrored between)
      (Run.makeClosure decl inner isInitializer)
      (Run.makeClosure twin innerPlace isInitializer) := by
  apply bindSame freshSerial
  intro later serial grows
  exact pure ⟨rfl, rfl, kept, Matching.known_later grows known, isKept, agrees⟩

/-- The frame around the body of a bound method is made for its object, and is kept. -/
theorem bindMethod {method twin : Closure} {object objectTwin : Value}
    (methods : Closure.MethodMirrored matching method twin)
    (objects : object.Mirrored matching objectTwin) :
    Mirrors matching frame place (Closure.Mirrored []) (Run.bind method object)
      (Run.bind twin objectTwin) := by
  obtain ⟨kept, known, isKept, agrees⟩ := methods.decl
  unfold Run.bind
  rw [methods.isInitializer]
  apply bind (childOf known)
  intro later inner innerPlace grows innerKnown
  apply bindSame (defineIn ⟨_, innerKnown, rfl⟩ "this" (objects.mono grows))
  intro last _ further
  exact makeClosure [] (Matching.known_later further innerKnown) rfl agrees method.isInitializer

theorem defineParams {inner innerPlace : FrameId} {params : List Token}
    {args argsTwin : List Value} (keeps : matching.Keeps inner innerPlace)
    (related : AllValues matching args argsTwin) :
    Mirrors matching frame place (fun _ => Eq) (Run.defineParams inner params args)
      (Run.defineParams innerPlace params argsTwin) := by
  induction params generalizing matching args argsTwin with
  | nil => cases related <;> exact pure rfl
  | cons param params induction =>
      cases related with
      | nil => exact pure rfl
      | cons first rest =>
          apply bindSame (defineIn keeps param.lexeme first)
          intro later _ grows
          exact induction (keeps.mono grows) (allValues_mono rest grows)

/-- What is assumed of the evaluation of expressions with less room: those that agree mirror each
other, in whatever frame. -/
def EvaluatesAlike (evaluate evaluateTwin : Expr Site → Run Value) : Prop :=
  ∀ (matching : Matching) (frame place : FrameId) (kept : List Bool) (e twin : Expr Site),
    matching[frame]? = some ⟨place, kept⟩ → (Part.expr e).Agrees kept (.expr twin) →
      Mirrors matching frame place Value.Mirrored (evaluate e) (evaluateTwin twin)

/-- What is assumed of the execution of statements with less room. -/
def ExecutesAlike (execute executeTwin : Stmt Site → Run Completion) : Prop :=
  ∀ (matching : Matching) (frame place : FrameId) (kept : List Bool) (s twin : Stmt Site),
    matching[frame]? = some ⟨place, kept⟩ → (Part.stmt s).Agrees kept (.stmt twin) →
      Mirrors matching frame place Completion.Mirrored (execute s) (executeTwin twin)

theorem evalEach {evaluate evaluateTwin : Expr Site → Run Value}
    (evaluates : EvaluatesAlike evaluate evaluateTwin) {args argsTwin : List (Expr Site)}
    (known : matching[frame]? = some ⟨place, kept⟩)
    (agree : List.Forall₂ (fun e twin => (Part.expr e).Agrees kept (.expr twin)) args argsTwin) :
    Mirrors matching frame place AllValues (Run.evalEach evaluate args)
      (Run.evalEach evaluateTwin argsTwin) := by
  induction agree generalizing matching with
  | nil => exact pure .nil
  | cons agrees others induction =>
      apply bind (evaluates _ _ _ _ _ _ known agrees)
      intro later value valueTwin grows related
      apply bind (induction (Matching.known_later grows known))
      intro last values valuesTwin further rest
      exact pure (.cons (related.mono further) rest)

theorem execEach (executes : ExecutesAlike execute executeTwin) {body bodyTwin : List (Stmt Site)}
    (known : matching[frame]? = some ⟨place, kept⟩)
    (agree : List.Forall₂ (fun s twin => (Part.stmt s).Agrees kept (.stmt twin)) body bodyTwin) :
    Mirrors matching frame place Completion.Mirrored (Run.execEach execute body)
      (Run.execEach executeTwin bodyTwin) := by
  induction agree generalizing matching with
  | nil => exact pure .normal
  | cons agrees others induction =>
      apply bind (executes _ _ _ _ _ _ known agrees)
      intro later completion completionTwin grows related
      cases related with
      | normal => exact induction (Matching.known_later grows known)
      | returned same => exact pure (.returned same)

theorem iterate {condition conditionTwin : Run Value} {body bodyTwin : Run Completion}
    (conditions : ∀ later, matching <+: later →
      Mirrors later frame place Value.Mirrored condition conditionTwin)
    (bodies : ∀ later, matching <+: later →
      Mirrors later frame place Completion.Mirrored body bodyTwin) (patience : Nat) :
    Mirrors matching frame place Completion.Mirrored (Run.iterate condition body patience)
      (Run.iterate conditionTwin bodyTwin patience) := by
  induction patience generalizing matching with
  | zero => exact throw .outOfPatience
  | succ patience induction =>
      apply bind (conditions matching (List.prefix_refl _))
      intro later value valueTwin grows related
      rw [related.isTruthy]
      split
      · apply bind (bodies later grows)
        intro last completion completionTwin further same
        cases same with
        | normal =>
            have reaches := grows.trans further
            exact induction (fun reached beyond => conditions reached (reaches.trans beyond))
              fun reached beyond => bodies reached (reaches.trans beyond)
        | returned same => exact pure (.returned same)
      · exact pure .normal

theorem callClosure (executes : ExecutesAlike execute executeTwin) {closure twin : Closure}
    {args argsTwin : List Value} (mirrored : closure.Mirrored [] matching twin)
    (related : AllValues matching args argsTwin) :
    Mirrors matching frame place Value.Mirrored (Run.callClosure execute closure args)
      (Run.callClosure executeTwin twin argsTwin) := by
  obtain ⟨kept, known, isKept, agrees⟩ := mirrored.decl
  have bodies := agrees.each Part.stmt 0 rfl rfl fun _ => rfl
  unfold Run.callClosure
  rw [mirrored.isInitializer, agrees.header.2]
  apply bind (childOf known)
  intro later inner innerPlace grows innerKnown
  apply bindSame (defineParams ⟨_, innerKnown, rfl⟩ (allValues_mono related grows))
  intro last _ further
  have innerLast := Matching.known_later further innerKnown
  apply bind (inFrame (execEach executes innerLast bodies))
  intro final completion completionTwin beyond same
  split
  · have own := keptIndex?_of_headD isKept
    exact lookUpAt (Matching.known_later (grows.trans (further.trans beyond)) known) own "this"
  · cases same with
    | normal => exact pure .nil
    | returned value => exact pure value

theorem callClass (executes : ExecutesAlike execute executeTwin) {cls twin : ClassValue}
    {args argsTwin : List Value} (mirrored : cls.Mirrored matching twin)
    (related : AllValues matching args argsTwin) :
    Mirrors matching frame place Value.Mirrored (Run.callClass execute cls args)
      (Run.callClass executeTwin twin argsTwin) := by
  apply bind (newObject mirrored)
  intro later object objectTwin grows objects
  have found := (mirrored.mono grows).method? initializerName
  unfold ClassValue.initializer?
  generalize cls.method? initializerName = initializer at found
  generalize twin.method? initializerName = initializerTwin at found
  cases found with
  | none => exact pure objects
  | some methods =>
      apply bind (bindMethod methods objects)
      intro last bound boundTwin further same
      have argsLast := allValues_mono related (grows.trans further)
      apply bind (callClosure executes same argsLast)
      intro final _ _ beyond _
      exact pure (objects.mono (further.trans beyond))

theorem callWith {args argsTwin : List Value} {body bodyTwin : Run Value} (paren : Token)
    (arity : Nat) (related : AllValues matching args argsTwin)
    (bodies : Mirrors matching frame place Value.Mirrored body bodyTwin) :
    Mirrors matching frame place Value.Mirrored (Run.callWith paren arity args body)
      (Run.callWith paren arity argsTwin bodyTwin) := by
  unfold Run.callWith
  rw [← related.length_eq]
  split
  · exact catchOverflow paren bodies
  · exact fault paren _

theorem callValue (host : Host) (executes : ExecutesAlike execute executeTwin) (paren : Token)
    {callee twin : Value} {args argsTwin : List Value} (callees : callee.Mirrored matching twin)
    (related : AllValues matching args argsTwin) :
    Mirrors matching frame place Value.Mirrored (Run.callValue host execute paren callee args)
      (Run.callValue host executeTwin paren twin argsTwin) := by
  cases callees with
  | primitive => exact callWith paren _ related (readClock host)
  | closure same =>
      simp only [Run.callValue]
      rw [same.arity]
      exact callWith paren _ related (callClosure executes same related)
  | «class» same =>
      simp only [Run.callValue]
      rw [same.arity]
      exact callWith paren _ related (callClass executes same related)
  | _ => exact fault paren _

end Functions

section Properties

/-- Binding the method of a name that is found in classes that mirror each other. -/
theorem bindFound {cls clsTwin : ClassValue} {object objectTwin : Value} (name : Token)
    (classes : cls.Mirrored matching clsTwin) (objects : object.Mirrored matching objectTwin) :
    Mirrors matching frame place Value.Mirrored
      (match cls.method? name.lexeme with
        | some method => do return .closure (← Run.bind method object)
        | none => Run.fault name (.undefinedProperty name.lexeme))
      (match clsTwin.method? name.lexeme with
        | some method => do return .closure (← Run.bind method objectTwin)
        | none => Run.fault name (.undefinedProperty name.lexeme)) := by
  have methods := classes.method? name.lexeme
  generalize cls.method? name.lexeme = method at methods
  generalize clsTwin.method? name.lexeme = methodTwin at methods
  cases methods with
  | none => exact fault name _
  | some same =>
      apply bind (bindMethod same objects)
      exact fun _ _ _ _ related => pure (.closure related)

theorem property {object objectTwin : Value} (objects : object.Mirrored matching objectTwin)
    (name : Token) :
    Mirrors matching frame place Value.Mirrored (Run.property object name)
      (Run.property objectTwin name) := by
  unfold Run.property
  cases objects with
  | object classes =>
      apply bind (field? _ name.lexeme)
      intro later field fieldTwin grows found
      cases found with
      | some related => exact pure related
      | none => exact bindFound name (classes.mono grows) (.object (classes.mono grows))
  | _ => exact fault name _

/-- The superclass and the object are bound in frames that are kept, side by side. -/
theorem superMethod (known : matching[frame]? = some ⟨place, kept⟩) {distance found : Nat}
    (isKept : keptIndex? kept distance = some found)
    (nextKept : keptIndex? kept (distance + 1) = some (found + 1)) (method : Token) :
    Mirrors matching frame place Value.Mirrored (Run.superMethod method (some (distance + 1)))
      (Run.superMethod method (some (found + 1))) := by
  unfold Run.superMethod
  apply bind here
  rintro first _ _ firstGrows ⟨rfl, rfl⟩
  have firstKnown := Matching.known_later firstGrows known
  apply bind (lookUpAt firstKnown nextKept "super")
  intro second parent parentTwin secondGrows parents
  have secondKnown := Matching.known_later secondGrows firstKnown
  apply bind (lookUpAt secondKnown isKept "this")
  intro later object objectTwin grows objects
  cases parents with
  | «class» classes => exact bindFound method (classes.mono grows) objects
  | _ => exact defect .superNotClass

end Properties

section Classes

/-- There is a superclass on both sides or on neither. -/
abbrev ParentsMirrored (matching : Matching) : Option ClassValue → Option ClassValue → Prop :=
  Option.Rel (ClassValue.Mirrored matching)

theorem parents_mono {parent twin : Option ClassValue}
    (parents : ParentsMirrored matching parent twin) (grows : matching <+: later) :
    ParentsMirrored later parent twin := by
  cases parents with
  | none => exact .none
  | some classes => exact .some (classes.mono grows)

theorem superclassOf {parent : Token} {site siteTwin : Site}
    (known : matching[frame]? = some ⟨place, kept⟩) (sites : site.Agrees kept siteTwin) :
    Mirrors matching frame place (fun later found foundTwin =>
        found.isSome = true ∧ ParentsMirrored later found foundTwin)
      (Run.superclass? (some ⟨parent, site⟩)) (Run.superclass? (some ⟨parent, siteTwin⟩)) := by
  apply bind (lookUp known sites parent)
  intro later value valueTwin grows related
  cases related with
  | «class» classes => exact pure ⟨rfl, .some classes⟩
  | _ => exact fault parent _

theorem methodTable {inner innerPlace : FrameId} {methods methodsTwin : List (FunctionDecl Site)}
    {table tableTwin : Table Closure} (known : matching[inner]? = some ⟨innerPlace, kept⟩)
    (isKept : Counterpart.IsKept ⟨innerPlace, kept⟩)
    (tables : Table.Mirrored (Closure.MethodMirrored matching) table tableTwin)
    (agree : List.Forall₂ (fun decl twin =>
      (Part.method decl).Agrees ([true] ++ kept) (.method twin)) methods methodsTwin) :
    Mirrors matching frame place
      (fun later => Table.Mirrored (Closure.MethodMirrored later))
      (Run.methodTable inner table methods) (Run.methodTable innerPlace tableTwin methodsTwin) := by
  induction agree generalizing matching table tableTwin with
  | nil => exact pure tables
  | cons agrees others induction =>
      unfold Run.methodTable
      rw [agrees.header.1]
      apply bind (makeClosure [true] known isKept agrees _)
      intro later method methodTwin grows related
      have grown := tables.mono fun _ _ same => Closure.Mirrored.mono same grows
      exact induction (Matching.known_later grows known) (grown.insert _ related)

/-- The frame around the methods is kept: that of the class, or one made inside it for `super`. -/
theorem methodFrame {inner innerPlace : FrameId} {parent twin : Option ClassValue}
    (known : matching[inner]? = some ⟨innerPlace, kept⟩)
    (isKept : Counterpart.IsKept ⟨innerPlace, kept⟩)
    (parents : ParentsMirrored matching parent twin) :
    Mirrors matching frame place (fun later made other =>
        ∃ marks, marks = (if parent.isSome then true :: kept else kept) ∧
          later[made]? = some ⟨other, marks⟩ ∧ Counterpart.IsKept ⟨other, marks⟩)
      (Run.methodFrame inner parent) (Run.methodFrame innerPlace twin) := by
  cases parents with
  | none => exact pure ⟨kept, rfl, known, isKept⟩
  | some classes =>
      apply bind (childOf known)
      intro later made other grows madeKnown
      apply bindSame (defineIn ⟨_, madeKnown, rfl⟩ "super" (.class (classes.mono grows)))
      intro last _ further
      exact pure ⟨_, rfl, Matching.known_later further madeKnown, rfl⟩

theorem declareClass {name : Token} {parent parentTwin : Option (Superclass Site)}
    {methods methodsTwin : List (FunctionDecl Site)} {derived : Bool}
    (known : matching[frame]? = some ⟨place, kept⟩)
    (isKept : Counterpart.IsKept ⟨place, kept⟩)
    (parents : Mirrors matching frame place (fun later found foundTwin =>
      found.isSome = derived ∧ ParentsMirrored later found foundTwin)
      (Run.superclass? parent) (Run.superclass? parentTwin))
    (agree : List.Forall₂ (fun decl twin => (Part.method decl).Agrees
      ([true] ++ if derived then true :: kept else kept) (.method twin)) methods methodsTwin) :
    Mirrors matching frame place (fun _ => Eq) (Run.declareClass name parent methods)
      (Run.declareClass name parentTwin methodsTwin) := by
  apply bind parents
  rintro first found foundTwin firstGrows ⟨rfl, related⟩
  apply bind here
  rintro second outer outerPlace secondGrows ⟨rfl, rfl⟩
  have secondKnown := Matching.known_later (firstGrows.trans secondGrows) known
  apply bindSame (defineIn ⟨_, secondKnown, isKept⟩ name.lexeme .nil)
  intro third _ thirdGrows
  have thirdKnown := Matching.known_later thirdGrows secondKnown
  have relatedThird := parents_mono related (secondGrows.trans thirdGrows)
  apply bind (methodFrame thirdKnown isKept relatedThird)
  rintro fourth inner innerPlace fourthGrows ⟨_, rfl, innerKnown, innerKept⟩
  apply bind (methodTable innerKnown innerKept .empty agree)
  intro fifth table tableTwin fifthGrows tables
  apply bindSame freshSerial
  intro last serial lastGrows
  have reaches := fourthGrows.trans (fifthGrows.trans lastGrows)
  apply defineIn ⟨_, Matching.known_later reaches thirdKnown, isKept⟩
  refine .class (.cons ⟨rfl, rfl, ?_⟩ ?_)
  · exact tables.mono fun _ _ same => Closure.Mirrored.mono same lastGrows
  · cases relatedThird with
    | none => exact .nil
    | some classes => exact classes.mono reaches

end Classes

section Room

variable {host : Host} {room : Nat}

theorem eval_next (evaluates : EvaluatesAlike (eval host room) (eval host room))
    (executes : ExecutesAlike (exec host room) (exec host room)) :
    EvaluatesAlike (eval host (room + 1)) (eval host (room + 1)) := by
  intro matching frame place kept e twin known agrees
  cases Expr.formed (Part.expr.inj agrees.same) with
  | @literal value => cases value <;> exact pure (by constructor)
  | grouping => exact evaluates _ _ _ _ _ _ known (agrees.child 0 rfl rfl)
  | unary =>
      apply bind (evaluates _ _ _ _ _ _ known (agrees.child 0 rfl rfl))
      intro later value valueTwin grows related
      exact applyUnary _ related
  | binary =>
      apply bind (evaluates _ _ _ _ _ _ known (agrees.child 0 rfl rfl))
      intro later left leftTwin grows leftRelated
      apply bind (evaluates _ _ _ _ _ _ (Matching.known_later grows known)
        (agrees.child 1 rfl rfl))
      intro last right rightTwin further rightRelated
      exact applyBinary _ (leftRelated.mono further) rightRelated
  | logical =>
      apply bind (evaluates _ _ _ _ _ _ known (agrees.child 0 rfl rfl))
      intro later left leftTwin grows related
      rw [decides_eq _ related]
      split
      · exact pure related
      · exact evaluates _ _ _ _ _ _ (Matching.known_later grows known) (agrees.child 1 rfl rfl)
  | «variable» =>
      obtain ⟨_, ⟨⟩, sites⟩ := agrees.site rfl
      exact lookUp known sites _
  | assign =>
      obtain ⟨_, ⟨⟩, sites⟩ := agrees.site rfl
      apply bind (evaluates _ _ _ _ _ _ known (agrees.child 0 rfl rfl))
      intro later value valueTwin grows related
      apply bindSame (store (Matching.known_later grows known) sites _ related)
      intro last _ further
      exact pure (related.mono further)
  | call =>
      apply bind (evaluates _ _ _ _ _ _ known (agrees.child 0 rfl rfl))
      intro later callee calleeTwin grows callees
      have args := agrees.each Part.expr 1 rfl rfl fun _ => rfl
      apply bind (evalEach evaluates (Matching.known_later grows known) args)
      intro last values valuesTwin further related
      exact callValue host executes _ (callees.mono further) related
  | get =>
      apply bind (evaluates _ _ _ _ _ _ known (agrees.child 0 rfl rfl))
      intro later object objectTwin grows related
      exact property related _
  | set =>
      apply bind (evaluates _ _ _ _ _ _ known (agrees.child 0 rfl rfl))
      intro later object objectTwin grows objects
      cases objects with
      | object classes =>
          apply bind (evaluates _ _ _ _ _ _ (Matching.known_later grows known)
            (agrees.child 1 rfl rfl))
          intro last value valueTwin further related
          apply bindSame (setField _ _ related)
          intro final _ beyond
          exact pure (related.mono beyond)
      | _ => exact fault _ _
  | this =>
      obtain ⟨_, ⟨⟩, sites⟩ := agrees.site rfl
      exact lookUp known sites _
  | super =>
      obtain ⟨distance, found, ⟨⟩, rfl, isKept, nextKept⟩ := agrees.super
      exact superMethod known isKept nextKept _

theorem exec_next (evaluates : EvaluatesAlike (eval host room) (eval host room))
    (executes : ExecutesAlike (exec host room) (exec host room)) :
    ExecutesAlike (exec host (room + 1)) (exec host (room + 1)) := by
  intro matching frame place kept s twin known agrees
  -- a declaration binds its name in a frame that is kept
  have isKept : Part.brought (.stmt s) ≠ [] → Counterpart.IsKept ⟨place, kept⟩ := agrees.declared
  cases Stmt.formed (Part.stmt.inj agrees.same) with
  | expression =>
      apply bind (evaluates _ _ _ _ _ _ known (agrees.child 0 rfl rfl))
      intro later value valueTwin grows related
      exact pure .normal
  | print =>
      apply bind (evaluates _ _ _ _ _ _ known (agrees.child 0 rfl rfl))
      intro later value valueTwin grows related
      rw [related.shown]
      apply bindSame (emit _)
      exact fun _ _ _ => pure .normal
  | «variable» =>
      apply bindSame (defineHere ⟨_, known, isKept nofun⟩ _ .nil)
      exact fun _ _ _ => pure .normal
  | var =>
      apply bind (evaluates _ _ _ _ _ _ known (agrees.child 0 rfl rfl))
      intro later value valueTwin grows related
      apply bindSame (defineHere ⟨_, Matching.known_later grows known, isKept nofun⟩ _ related)
      exact fun _ _ _ => pure .normal
  | block =>
      have bodies := agrees.each Part.stmt 0 rfl rfl fun _ => rfl
      apply bind here
      rintro first _ _ firstGrows ⟨rfl, rfl⟩
      apply bind (childOf (Matching.known_later firstGrows known))
      intro later inner innerPlace grows innerKnown
      exact inFrame (execEach executes innerKnown bodies)
  | conditional =>
      apply bind (evaluates _ _ _ _ _ _ known (agrees.child 0 rfl rfl))
      intro later value valueTwin grows related
      rw [related.isTruthy]
      split
      · exact executes _ _ _ _ _ _ (Matching.known_later grows known) (agrees.child 1 rfl rfl)
      · exact pure .normal
  | conditionalElse =>
      apply bind (evaluates _ _ _ _ _ _ known (agrees.child 0 rfl rfl))
      intro later value valueTwin grows related
      rw [related.isTruthy]
      split
      · exact executes _ _ _ _ _ _ (Matching.known_later grows known) (agrees.child 1 rfl rfl)
      · exact executes _ _ _ _ _ _ (Matching.known_later grows known) (agrees.child 2 rfl rfl)
  | loop =>
      apply iterate
      · intro later grows
        exact evaluates _ _ _ _ _ _ (Matching.known_later grows known) (agrees.child 0 rfl rfl)
      · intro later grows
        exact executes _ _ _ _ _ _ (Matching.known_later grows known) (agrees.child 1 rfl rfl)
  | function =>
      apply bind here
      rintro first _ _ firstGrows ⟨rfl, rfl⟩
      have firstKnown := Matching.known_later firstGrows known
      apply bind (makeClosure [] firstKnown (isKept nofun) agrees.ofFunction false)
      intro later closure closureTwin grows related
      apply bindSame (defineHere ⟨_, Matching.known_later grows firstKnown, isKept nofun⟩ _
        (.closure related))
      exact fun _ _ _ => pure .normal
  | returnNothing => exact pure (.returned .nil)
  | «return» =>
      apply bind (evaluates _ _ _ _ _ _ known (agrees.child 0 rfl rfl))
      intro later value valueTwin grows related
      exact pure (.returned related)
  | plainClass =>
      have parents : Mirrors matching frame place (fun later found foundTwin =>
          found.isSome = false ∧ ParentsMirrored later found foundTwin)
          (Run.superclass? none) (Run.superclass? none) := pure ⟨rfl, .none⟩
      have methods := agrees.each Part.method 0 rfl rfl fun _ => rfl
      apply bindSame (declareClass known (isKept nofun) parents methods)
      exact fun _ _ _ => pure .normal
  | derivedClass =>
      obtain ⟨_, ⟨⟩, sites⟩ := (agrees.child 0 rfl rfl).site rfl
      have methods := agrees.each Part.method 1 rfl rfl fun _ => rfl
      apply bindSame (declareClass known (isKept nofun) (superclassOf known sites) methods)
      exact fun _ _ _ => pure .normal
  | lost => exact defect .lostStatement

/-- Expressions and statements that agree mirror each other. -/
theorem runs_alike (host : Host) (room : Nat) :
    EvaluatesAlike (eval host room) (eval host room) ∧
      ExecutesAlike (exec host room) (exec host room) := by
  induction room with
  | zero =>
      exact ⟨fun _ _ _ _ _ _ _ _ => throw .overflow, fun _ _ _ _ _ _ _ _ => throw .overflow⟩
  | succ room induction =>
      obtain ⟨evaluates, executes⟩ := induction
      exact ⟨eval_next evaluates executes, exec_next evaluates executes⟩

end Room

end Mirrors

end Run

end LoxLang

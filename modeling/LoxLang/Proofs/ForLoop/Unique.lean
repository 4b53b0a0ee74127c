import LoxLang.Proofs.ForLoop.Kept

/-!
# Trees are known by where their names are

If a tree is located in the constructs around it, no other one is that differs from it in
nothing but its sites.
-/

namespace LoxLang

/-- If everything is kept, an item is found where it is. -/
theorem keptIndex?_all {kept : List Bool} (all : ∀ mark ∈ kept, mark = true) {index found : Nat}
    (isKept : keptIndex? kept index = some found) : found = index := by
  induction kept generalizing index found with
  | nil => exact (Option.some.inj isKept).symm
  | cons mark kept induction =>
      obtain ⟨rfl, others⟩ := List.forall_mem_cons.1 all
      cases index with
      | zero => exact (Option.some.inj isKept).symm
      | succ index =>
          obtain ⟨inner, isInner, rfl⟩ := Option.map_eq_some_iff.1 isKept
          rw [induction others isInner]

theorem Site.Agrees.eq_of_all {kept : List Bool} (all : ∀ mark ∈ kept, mark = true)
    {site twin : Site} (agrees : site.Agrees kept twin) : twin = site := by
  cases agrees with
  | none => rfl
  | some isKept => rw [keptIndex?_all all isKept]

theorem all_opened {kept : List Bool} (all : ∀ mark ∈ kept, mark = true) :
    ∀ mark ∈ [true] ++ kept, mark = true :=
  List.forall_mem_cons.2 ⟨rfl, all⟩

mutual

theorem Expr.eq_of_agrees {kept : List Bool} (all : ∀ mark ∈ kept, mark = true) :
    ∀ (e : Expr Site) {twin : Expr Site}, (Part.expr e).Agrees kept (.expr twin) → twin = e
  | .literal _, _, agrees => by
      cases Expr.formed (Part.expr.inj agrees.same)
      rfl
  | .grouping inner, _, agrees => by
      cases Expr.formed (Part.expr.inj agrees.same)
      rw [Expr.eq_of_agrees all inner (agrees.child 0 rfl rfl)]
  | .unary _ operand, _, agrees => by
      cases Expr.formed (Part.expr.inj agrees.same)
      rw [Expr.eq_of_agrees all operand (agrees.child 0 rfl rfl)]
  | .binary left _ right, _, agrees => by
      cases Expr.formed (Part.expr.inj agrees.same)
      rw [Expr.eq_of_agrees all left (agrees.child 0 rfl rfl),
        Expr.eq_of_agrees all right (agrees.child 1 rfl rfl)]
  | .logical left _ right, _, agrees => by
      cases Expr.formed (Part.expr.inj agrees.same)
      rw [Expr.eq_of_agrees all left (agrees.child 0 rfl rfl),
        Expr.eq_of_agrees all right (agrees.child 1 rfl rfl)]
  | .variable _ _, _, agrees => by
      cases Expr.formed (Part.expr.inj agrees.same)
      obtain ⟨_, ⟨⟩, sites⟩ := agrees.site rfl
      rw [sites.eq_of_all all]
  | .assign _ _ value, _, agrees => by
      cases Expr.formed (Part.expr.inj agrees.same)
      obtain ⟨_, ⟨⟩, sites⟩ := agrees.site rfl
      rw [sites.eq_of_all all, Expr.eq_of_agrees all value (agrees.child 0 rfl rfl)]
  | .call callee _ args, _, agrees => by
      cases Expr.formed (Part.expr.inj agrees.same)
      have argsAgree := agrees.each Part.expr 1 rfl rfl fun _ => rfl
      rw [Expr.eq_of_agrees all callee (agrees.child 0 rfl rfl),
        Expr.eq_of_eachAgrees all args argsAgree]
  | .get object _, _, agrees => by
      cases Expr.formed (Part.expr.inj agrees.same)
      rw [Expr.eq_of_agrees all object (agrees.child 0 rfl rfl)]
  | .set object _ value, _, agrees => by
      cases Expr.formed (Part.expr.inj agrees.same)
      rw [Expr.eq_of_agrees all object (agrees.child 0 rfl rfl),
        Expr.eq_of_agrees all value (agrees.child 1 rfl rfl)]
  | .this _ _, _, agrees => by
      cases Expr.formed (Part.expr.inj agrees.same)
      obtain ⟨_, ⟨⟩, sites⟩ := agrees.site rfl
      rw [sites.eq_of_all all]
  | .super _ _ _, _, agrees => by
      cases Expr.formed (Part.expr.inj agrees.same)
      obtain ⟨_, ⟨⟩, sites⟩ := agrees.site rfl
      rw [sites.eq_of_all all]

theorem Expr.eq_of_eachAgrees {kept : List Bool} (all : ∀ mark ∈ kept, mark = true) :
    ∀ (args : List (Expr Site)) {twins : List (Expr Site)},
      List.Forall₂ (fun e twin => (Part.expr e).Agrees kept (.expr twin)) args twins → twins = args
  | [], _, .nil => rfl
  | first :: rest, _, .cons agrees others => by
      rw [Expr.eq_of_agrees all first agrees, Expr.eq_of_eachAgrees all rest others]

end

mutual

theorem Stmt.eq_of_agrees {kept : List Bool} (all : ∀ mark ∈ kept, mark = true) :
    ∀ (s : Stmt Site) {twin : Stmt Site}, (Part.stmt s).Agrees kept (.stmt twin) → twin = s
  | .expression value, _, agrees => by
      cases Stmt.formed (Part.stmt.inj agrees.same)
      rw [value.eq_of_agrees all (agrees.child 0 rfl rfl)]
  | .print value, _, agrees => by
      cases Stmt.formed (Part.stmt.inj agrees.same)
      rw [value.eq_of_agrees all (agrees.child 0 rfl rfl)]
  | .var _ none, _, agrees => by
      cases Stmt.formed (Part.stmt.inj agrees.same)
      rfl
  | .var _ (some value), _, agrees => by
      cases Stmt.formed (Part.stmt.inj agrees.same)
      rw [value.eq_of_agrees all (agrees.child 0 rfl rfl)]
  | .block body, _, agrees => by
      cases Stmt.formed (Part.stmt.inj agrees.same)
      have bodies := agrees.each Part.stmt 0 rfl rfl fun _ => rfl
      rw [Stmt.eq_of_eachAgrees (all_opened all) body bodies]
  | .conditional condition thenBranch none, _, agrees => by
      cases Stmt.formed (Part.stmt.inj agrees.same)
      rw [condition.eq_of_agrees all (agrees.child 0 rfl rfl),
        Stmt.eq_of_agrees all thenBranch (agrees.child 1 rfl rfl)]
  | .conditional condition thenBranch (some elseBranch), _, agrees => by
      cases Stmt.formed (Part.stmt.inj agrees.same)
      rw [condition.eq_of_agrees all (agrees.child 0 rfl rfl),
        Stmt.eq_of_agrees all thenBranch (agrees.child 1 rfl rfl),
        Stmt.eq_of_agrees all elseBranch (agrees.child 2 rfl rfl)]
  | .loop condition body, _, agrees => by
      cases Stmt.formed (Part.stmt.inj agrees.same)
      rw [condition.eq_of_agrees all (agrees.child 0 rfl rfl),
        Stmt.eq_of_agrees all body (agrees.child 1 rfl rfl)]
  | .function decl, _, agrees => by
      cases Stmt.formed (Part.stmt.inj agrees.same)
      rw [FunctionDecl.eq_of_agrees all _ agrees.ofFunction]
  | .return _ none, _, agrees => by
      cases Stmt.formed (Part.stmt.inj agrees.same)
      rfl
  | .return _ (some value), _, agrees => by
      cases Stmt.formed (Part.stmt.inj agrees.same)
      rw [value.eq_of_agrees all (agrees.child 0 rfl rfl)]
  | .class _ none methods, _, agrees => by
      cases Stmt.formed (Part.stmt.inj agrees.same)
      have methodsAgree := agrees.each Part.method 0 rfl rfl fun _ => rfl
      rw [FunctionDecl.eq_of_eachAgrees (all_opened all) methods methodsAgree]
  | .class _ (some ⟨_, site⟩) methods, _, agrees => by
      cases Stmt.formed (Part.stmt.inj agrees.same) with
      | @derivedClass _ _ _ siteTwin =>
          obtain ⟨_, ⟨⟩, sites⟩ := (agrees.child 0 rfl rfl).site rfl
          obtain rfl : siteTwin = site := sites.eq_of_all all
          have methodsAgree := agrees.each Part.method 1 rfl rfl fun _ => rfl
          rw [FunctionDecl.eq_of_eachAgrees (all_opened (all_opened all)) methods methodsAgree]
  | .lost, _, agrees => by
      cases Stmt.formed (Part.stmt.inj agrees.same)
      rfl

theorem Stmt.eq_of_eachAgrees {kept : List Bool} (all : ∀ mark ∈ kept, mark = true) :
    ∀ (body : List (Stmt Site)) {twins : List (Stmt Site)},
      List.Forall₂ (fun s twin => (Part.stmt s).Agrees kept (.stmt twin)) body twins → twins = body
  | [], _, .nil => rfl
  | first :: rest, _, .cons agrees others => by
      rw [Stmt.eq_of_agrees all first agrees, Stmt.eq_of_eachAgrees all rest others]

theorem FunctionDecl.eq_of_agrees {kept : List Bool} (all : ∀ mark ∈ kept, mark = true) :
    ∀ (decl : FunctionDecl Site) {twin : FunctionDecl Site},
      (Part.method decl).Agrees kept (.method twin) → twin = decl
  | .mk _ _ body, .mk _ _ _, agrees => by
      obtain ⟨rfl, rfl⟩ := agrees.header
      have bodies := agrees.each Part.stmt 0 rfl rfl fun _ => rfl
      exact congrArg _ (Stmt.eq_of_eachAgrees (all_opened all) body bodies)

theorem FunctionDecl.eq_of_eachAgrees {kept : List Bool} (all : ∀ mark ∈ kept, mark = true) :
    ∀ (methods : List (FunctionDecl Site)) {twins : List (FunctionDecl Site)},
      List.Forall₂ (fun decl twin => (Part.method decl).Agrees kept (.method twin)) methods twins →
        twins = methods
  | [], _, .nil => rfl
  | first :: rest, _, .cons agrees others => by
      rw [FunctionDecl.eq_of_agrees all first agrees,
        FunctionDecl.eq_of_eachAgrees all rest others]

end

end LoxLang

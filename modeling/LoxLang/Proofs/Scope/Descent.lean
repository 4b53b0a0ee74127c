import LoxLang.Proofs.Scope.Layout
import LoxLang.Proofs.Scope.Parts

/-!
# Inside what is laid out well

All parts of what is laid out well in some context are laid out well, each in a context
of its own.  So what is known of the site of one reference is known of all of them.
-/

namespace LoxLang.Part

variable {survey : Survey}

/-- The part is laid out well in some context. -/
def IsScoped (survey : Survey) : Part Site → Prop
  | .program body => ∀ s ∈ body, ∃ context address, s.Scoped survey context address
  | .stmt s => ∃ context address, s.Scoped survey context address
  | .method decl => ∃ context address, decl.Scoped survey context address
  | .superclass _ => True
  | .expr e => ∃ context address, e.Scoped survey context address

/-- Statements that are laid out well one after the other are each laid out well. -/
theorem scoped_of_list {context : Context} {address : Address} {index : Nat}
    {body : List (Stmt Site)} (listScoped : Stmt.ListScoped survey context address index body) :
    ∀ s ∈ body, ∃ context address, s.Scoped survey context address := by
  induction body generalizing context index with
  | nil => exact nofun
  | cons first rest induction =>
      cases listScoped with
      | cons firstScoped restScoped =>
          exact List.forall_mem_cons.2 ⟨⟨_, _, firstScoped⟩, induction restScoped⟩

namespace IsScoped

variable {child : Part Site}

theorem inBody {decl : FunctionDecl Site} {context : Context} {address : Address}
    (isScoped : decl.Scoped survey context address) (member : child ∈ decl.body.map stmt) :
    child.IsScoped survey := by
  cases isScoped with
  | mk _ _ body =>
      obtain ⟨s, inside, rfl⟩ := List.mem_map.1 member
      exact scoped_of_list body s inside

theorem inExpr {e : Expr Site} (isScoped : (expr e).IsScoped survey)
    (member : child ∈ (expr e).children) : child.IsScoped survey := by
  obtain ⟨context, address, ⟨_, parts⟩⟩ := isScoped
  cases parts with
  | literal | «variable» _ | this _ _ | super _ _ _ => cases member
  | grouping inner | unary inner | assign _ _ inner | get inner =>
      obtain rfl := List.mem_singleton.1 member
      exact ⟨_, _, inner⟩
  | binary _ left right | logical left right | set left right =>
      rcases List.mem_cons.1 member with rfl | later
      · exact ⟨_, _, left⟩
      · obtain rfl := List.mem_singleton.1 later
        exact ⟨_, _, right⟩
  | call callee args =>
      rcases List.mem_cons.1 member with rfl | isArg
      · exact ⟨_, _, callee⟩
      · obtain ⟨arg, inside, rfl⟩ := List.mem_map.1 isArg
        obtain ⟨index, there⟩ := List.getElem?_of_mem inside
        exact ⟨_, _, args index arg there⟩

theorem inStmt {s : Stmt Site} (isScoped : (stmt s).IsScoped survey)
    (member : child ∈ (stmt s).children) : child.IsScoped survey := by
  obtain ⟨context, address, isScoped⟩ := isScoped
  cases isScoped with
  | mk _ parts =>
    cases parts with
    | expression value | print value =>
        obtain rfl := List.mem_singleton.1 member
        exact ⟨_, _, value⟩
    | var _ _ _ value | «return» _ value =>
        obtain ⟨found, there, rfl⟩ := List.mem_map.1 member
        exact ⟨_, _, value found (Option.mem_toList.1 there)⟩
    | block body =>
        obtain ⟨inner, there, rfl⟩ := List.mem_map.1 member
        exact scoped_of_list body inner there
    | conditional condition thenBranch _ elseBranch _ =>
        simp only [children, List.mem_cons, List.mem_map] at member
        rcases member with rfl | rfl | ⟨branch, there, rfl⟩
        · exact ⟨_, _, condition⟩
        · exact ⟨_, _, thenBranch⟩
        · exact ⟨_, _, elseBranch branch (Option.mem_toList.1 there)⟩
    | loop condition body _ =>
        simp only [children, List.mem_cons, List.not_mem_nil, or_false] at member
        rcases member with rfl | rfl
        · exact ⟨_, _, condition⟩
        · exact ⟨_, _, body⟩
    | function _ _ _ decl => exact inBody decl member
    | plainClass _ _ _ _ methods =>
        obtain ⟨method, there, rfl⟩ := List.mem_map.1 member
        obtain ⟨index, there⟩ := List.getElem?_of_mem there
        exact ⟨_, _, methods index method there⟩
    | derivedClass _ _ _ _ _ _ _ methods =>
        rcases List.mem_cons.1 member with rfl | isMethod
        · trivial
        · obtain ⟨method, there, rfl⟩ := List.mem_map.1 isMethod
          obtain ⟨index, there⟩ := List.getElem?_of_mem there
          exact ⟨_, _, methods index method there⟩

theorem inside {part : Part Site} (isScoped : part.IsScoped survey)
    (member : child ∈ part.children) : child.IsScoped survey := by
  cases part with
  | program body =>
      obtain ⟨s, inBody, rfl⟩ := List.mem_map.1 member
      exact isScoped s inBody
  | stmt s => exact inStmt isScoped member
  | method decl =>
      obtain ⟨_, _, isScoped⟩ := isScoped
      exact inBody isScoped member
  | superclass parent => cases member
  | expr e => exact inExpr isScoped member

/-- Whatever lies inside is laid out well. -/
theorem everywhere {part : Part Site} (isScoped : part.IsScoped survey) :
    part.Everywhere (IsScoped survey) := by
  intro path
  induction path generalizing part with
  | nil =>
      intro inner leads
      cases leads
      exact isScoped
  | cons index path induction =>
      intro inner leads
      obtain ⟨child, there, leads⟩ := at?_cons.1 leads
      exact induction (isScoped.inside (List.mem_of_getElem? there)) inner leads

/-- `super` is only where it has a site. -/
theorem super_isSome {keyword method : Token} {site : Site}
    (isScoped : (expr (.super keyword method site)).IsScoped survey) : site.isSome = true := by
  obtain ⟨_, _, ⟨_, parts⟩⟩ := isScoped
  cases parts
  rfl

end IsScoped

end LoxLang.Part

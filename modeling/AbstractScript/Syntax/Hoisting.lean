import AbstractScript.Syntax.Tree

/-!
# Hoisted declarations

The names that `var` introduces in a statement list, and the function declarations that are bound
when the list is entered. Neither search enters a nested function. The search for functions does
not enter the bodies of loops.
-/
namespace AbstractScript

/-- Appends a name that is not there yet. -/
def addName (names : List String) (name : String) : List String :=
  if name ∈ names then names else names ++ [name]

/-- The names of declarators. -/
def Declarator.names (ds : List Declarator) : List String := ds.map (·.id.name)

mutual

/-- The names that `var` introduces in a statement, in order and with repetitions. -/
def Statement.declaredNames : Statement → List String
  | .varDeclaration _ ds => Declarator.names ds
  | .block b => Block.declaredNames b
  | .labeled _ _ body => body.declaredNames
  | .whileLoop _ _ body => body.declaredNames
  | .doWhileLoop _ _ body => body.declaredNames
  | .branch _ _ consequent alternate =>
    consequent.declaredNames ++ match alternate with
      | some s => s.declaredNames
      | none => []
  | .forLoop _ start _ _ body =>
    (match start with
      | some (.varDeclaration _ ds) => Declarator.names ds
      | _ => []) ++ body.declaredNames
  | .forInLoop _ target _ body =>
    (match target with
      | .variable _ id => [id.name]
      | .expression _ => []) ++ body.declaredNames
  | .switch _ _ cases => casesDeclaredNames cases
  | .tryCatch _ block handler finalizer =>
    Block.declaredNames block ++
      (match handler with
        | some (.mk _ _ body) => Block.declaredNames body
        | none => []) ++
      match finalizer with
        | some b => Block.declaredNames b
        | none => []
  | _ => []

/-- The names that `var` introduces in a block. -/
def Block.declaredNames : Block → List String
  | .mk _ body => listDeclaredNames body

/-- The names that `var` introduces in statements. -/
def listDeclaredNames : List Statement → List String
  | [] => []
  | s :: rest => s.declaredNames ++ listDeclaredNames rest

/-- The names that `var` introduces in the cases of a switch. -/
def casesDeclaredNames : List SwitchCase → List String
  | [] => []
  | .mk _ _ consequent :: rest => listDeclaredNames consequent ++ casesDeclaredNames rest

end

/-- The names that `var` introduces anywhere in a statement list, each once, in source order. -/
def varNames (statements : List Statement) : List String :=
  (listDeclaredNames statements).foldl addName []

theorem mem_addName {names : List String} {name other : String} :
    other ∈ addName names name ↔ other ∈ names ∨ other = name := by
  unfold addName
  split
  next known => exact ⟨Or.inl, fun h => h.elim id fun e => e ▸ known⟩
  next => simp

theorem nodup_addName {names : List String} (distinct : names.Nodup) (name : String) :
    (addName names name).Nodup := by
  unfold addName
  split
  next => exact distinct
  next new => exact List.nodup_append.2 ⟨distinct, by simp, by grind⟩

theorem mem_foldl_addName {more names : List String} {name : String} :
    name ∈ more.foldl addName names ↔ name ∈ names ∨ name ∈ more := by
  induction more generalizing names with
  | nil => simp
  | cons n more ih => simp [ih, mem_addName, or_assoc]

/-- The variables are the declared names. -/
theorem mem_varNames {statements : List Statement} {name : String} :
    name ∈ varNames statements ↔ name ∈ listDeclaredNames statements := by
  simp [varNames, mem_foldl_addName]

/-- No variable is listed twice. -/
theorem nodup_varNames (statements : List Statement) : (varNames statements).Nodup := by
  have keeps (more names : List String) (h : names.Nodup) : (more.foldl addName names).Nodup := by
    induction more generalizing names with
    | nil => exact h
    | cons n more ih => exact ih _ (nodup_addName h n)
  exact keeps _ _ List.nodup_nil

mutual

/-- The function declarations hoisted out of a statement. -/
def Statement.hoistedFunctions : Statement → List FunctionCode
  | .functionDeclaration code => [code]
  | .block b => Block.hoistedFunctions b
  | .labeled _ _ body => body.hoistedFunctions
  | .branch _ _ consequent alternate =>
    consequent.hoistedFunctions ++ match alternate with
      | some s => s.hoistedFunctions
      | none => []
  | .switch _ _ cases => casesHoistedFunctions cases
  | .tryCatch _ block handler finalizer =>
    Block.hoistedFunctions block ++
      (match handler with
        | some (.mk _ _ body) => Block.hoistedFunctions body
        | none => []) ++
      match finalizer with
        | some b => Block.hoistedFunctions b
        | none => []
  | _ => []

/-- The function declarations hoisted out of a block. -/
def Block.hoistedFunctions : Block → List FunctionCode
  | .mk _ body => hoistedFunctions body

/-- The function declarations hoisted to the function or program that a statement list belongs to,
in source order. -/
def hoistedFunctions : List Statement → List FunctionCode
  | [] => []
  | s :: rest => s.hoistedFunctions ++ hoistedFunctions rest

/-- The function declarations hoisted out of the cases of a switch. -/
def casesHoistedFunctions : List SwitchCase → List FunctionCode
  | [] => []
  | .mk _ _ consequent :: rest => hoistedFunctions consequent ++ casesHoistedFunctions rest

end

end AbstractScript

import AbstractScript.Proofs.Names

/-!
# The functions that are written in a program

A function can be written in an expression, in an object literal or as a declaration, at any depth.
The functions written in the body of one of them are among them too (`Program.functions_closed`), and
so are the ones that are hoisted (`hoistedFunctions_subset`).
-/
namespace AbstractScript

mutual

/-- The functions that are written in an expression. -/
def Expression.functions : Expression → List FunctionCode
  | .literal .. => []
  | .identifier _ => []
  | .this _ => []
  | .array _ xs => elementsFunctions xs
  | .object _ es => entriesFunctions es
  | .function code => code.functions
  | .unary _ _ x => x.functions
  | .update _ _ _ x => x.functions
  | .binary _ _ x y => x.functions ++ y.functions
  | .assignment _ _ x y => x.functions ++ y.functions
  | .logical _ _ x y => x.functions ++ y.functions
  | .conditional _ test x y => test.functions ++ (x.functions ++ y.functions)
  | .call _ f xs => f.functions ++ allFunctions xs
  | .construct _ f xs => f.functions ++ allFunctions xs
  | .member _ x _ => x.functions
  | .index _ x key => x.functions ++ key.functions
  | .sequence _ xs => allFunctions xs

/-- The functions that are written in an expression, if there is one. -/
def optionFunctions : Option Expression → List FunctionCode
  | none => []
  | some x => x.functions

/-- The functions that are written in some expressions. -/
def allFunctions : List Expression → List FunctionCode
  | [] => []
  | x :: rest => x.functions ++ allFunctions rest

/-- The functions that are written in the elements of an array literal. -/
def elementsFunctions : List (Option Expression) → List FunctionCode
  | [] => []
  | x :: rest => optionFunctions x ++ elementsFunctions rest

/-- The functions that are written in an entry of an object literal. -/
def Entry.functions : Entry → List FunctionCode
  | .value _ _ x => x.functions
  | .getter _ _ code => code.functions
  | .setter _ _ code => code.functions

/-- The functions that are written in the entries of an object literal. -/
def entriesFunctions : List Entry → List FunctionCode
  | [] => []
  | e :: rest => e.functions ++ entriesFunctions rest

/-- A function and those that are written in it. -/
def FunctionCode.functions : FunctionCode → List FunctionCode
  | .mk span id parameters bodySpan body =>
    .mk span id parameters bodySpan body :: bodyFunctions body

/-- The functions that are written in a statement. -/
def Statement.functions : Statement → List FunctionCode
  | .expression _ x => x.functions
  | .block b => b.functions
  | .empty _ => []
  | .debugger _ => []
  | .returns _ x => optionFunctions x
  | .breaks .. => []
  | .continues .. => []
  | .labeled _ _ s => s.functions
  | .branch _ test s t => test.functions ++ (s.functions ++ alternateFunctions t)
  | .switch _ x cs => x.functions ++ casesFunctions cs
  | .throws _ x => x.functions
  | .tryCatch _ b handler finalizer =>
    b.functions ++ (handlerFunctions handler ++ finalizerFunctions finalizer)
  | .whileLoop _ test s => test.functions ++ s.functions
  | .doWhileLoop _ test s => test.functions ++ s.functions
  | .forLoop _ start test update s =>
    startFunctions start ++ (optionFunctions test ++ (optionFunctions update ++ s.functions))
  | .forInLoop _ target x s => target.functions ++ (x.functions ++ s.functions)
  | .varDeclaration _ ds => declaratorsFunctions ds
  | .functionDeclaration code => code.functions

/-- The functions that are written in the second statement of an `if`, if there is one. -/
def alternateFunctions : Option Statement → List FunctionCode
  | none => []
  | some s => s.functions

/-- The functions that are written in some statements. -/
def bodyFunctions : List Statement → List FunctionCode
  | [] => []
  | s :: rest => s.functions ++ bodyFunctions rest

/-- The functions that are written in a block. -/
def Block.functions : Block → List FunctionCode
  | .mk _ ss => bodyFunctions ss

/-- The functions that are written in the last block of a `try`, if there is one. -/
def finalizerFunctions : Option Block → List FunctionCode
  | none => []
  | some b => b.functions

/-- The functions that are written in the handler of a `try`, if there is one. -/
def handlerFunctions : Option CatchClause → List FunctionCode
  | none => []
  | some (.mk _ _ b) => b.functions

/-- The functions that are written in the cases of a switch. -/
def casesFunctions : List SwitchCase → List FunctionCode
  | [] => []
  | .mk _ test ss :: rest => optionFunctions test ++ (bodyFunctions ss ++ casesFunctions rest)

/-- The functions that are written in what a `for` loop does first. -/
def startFunctions : Option ForStart → List FunctionCode
  | none => []
  | some (.varDeclaration _ ds) => declaratorsFunctions ds
  | some (.expression x) => x.functions

/-- The functions that are written in the target of a `for-in` loop. -/
def ForInTarget.functions : ForInTarget → List FunctionCode
  | .variable .. => []
  | .expression x => x.functions

/-- The functions that are written in the initial values of variables. -/
def declaratorsFunctions : List Declarator → List FunctionCode
  | [] => []
  | .mk _ _ x :: rest => optionFunctions x ++ declaratorsFunctions rest

end

/-- The functions that are written in a program. -/
def Program.functions (p : Program) : List FunctionCode := bodyFunctions p.body

/-- The functions written in a function are that function and those in its body. -/
theorem FunctionCode.functions_eq (code : FunctionCode) :
    code.functions = code :: bodyFunctions code.body := by
  cases code
  rfl

/-- A function is written in itself. -/
theorem FunctionCode.mem_functions (code : FunctionCode) : code ∈ code.functions := by
  rw [functions_eq]
  exact List.mem_cons_self

/-- What is written in its body is written in it. -/
theorem FunctionCode.bodyFunctions_subset (code : FunctionCode) :
    bodyFunctions code.body ⊆ code.functions := by
  rw [functions_eq]
  exact List.subset_cons_self ..

/-! ## Functions inside functions -/

/-- With every function there are those that are written in it. -/
def Closed (codes : List FunctionCode) : Prop := ∀ code ∈ codes, bodyFunctions code.body ⊆ codes

namespace Closed

variable {codes more : List FunctionCode}

/-- Without functions there is nothing to be closed under. -/
theorem nil : Closed [] := List.forall_mem_nil _

/-- Two closed lists together are closed. -/
theorem append (h : Closed codes) (hmore : Closed more) : Closed (codes ++ more) := by
  intro code hcode
  rcases List.mem_append.1 hcode with first | last
  · exact List.subset_append_of_subset_left more (h code first)
  · exact List.subset_append_of_subset_right codes (hmore code last)

/-- A function adds itself to the functions of its body and keeps the list closed. -/
theorem function {code : FunctionCode} (h : Closed (bodyFunctions code.body)) :
    Closed code.functions := by
  intro inner hinner
  rw [FunctionCode.functions_eq] at hinner
  rcases List.mem_cons.1 hinner with rfl | inside
  · exact inner.bodyFunctions_subset
  · exact List.Subset.trans (h inner inside) code.bodyFunctions_subset

end Closed

mutual

/-- The functions of an expression are closed, along with all other kinds of syntax below. -/
theorem Expression.functions_closed (x : Expression) : Closed x.functions := by
  cases x with
  | literal | identifier | this => exact .nil
  | array span xs => exact elementsFunctions_closed xs
  | object span es => exact entriesFunctions_closed es
  | function code => exact FunctionCode.functions_closed code
  | unary span operator x | update span operator leading x | member span x property =>
    exact Expression.functions_closed x
  | binary span operator x y | assignment span operator x y | logical span operator x y
  | index span x y =>
    exact .append (Expression.functions_closed x) (Expression.functions_closed y)
  | conditional span test x y =>
    exact .append (Expression.functions_closed test)
      (.append (Expression.functions_closed x) (Expression.functions_closed y))
  | call span f xs | construct span f xs =>
    exact .append (Expression.functions_closed f) (allFunctions_closed xs)
  | sequence span xs => exact allFunctions_closed xs

/-- So are those of an expression that may be missing. -/
theorem optionFunctions_closed (x : Option Expression) : Closed (optionFunctions x) := by
  cases x with
  | none => exact .nil
  | some x => exact Expression.functions_closed x

/-- So are those of the arguments of a call. -/
theorem allFunctions_closed (xs : List Expression) : Closed (allFunctions xs) := by
  cases xs with
  | nil => exact .nil
  | cons x rest => exact .append (Expression.functions_closed x) (allFunctions_closed rest)

/-- So are those of the elements of an array literal. -/
theorem elementsFunctions_closed (xs : List (Option Expression)) :
    Closed (elementsFunctions xs) := by
  cases xs with
  | nil => exact .nil
  | cons x rest => exact .append (optionFunctions_closed x) (elementsFunctions_closed rest)

/-- So are those of an entry of an object literal. -/
theorem Entry.functions_closed (e : Entry) : Closed e.functions := by
  cases e with
  | value span key x => exact Expression.functions_closed x
  | getter span key code | setter span key code => exact FunctionCode.functions_closed code

/-- So are those of all entries. -/
theorem entriesFunctions_closed (es : List Entry) : Closed (entriesFunctions es) := by
  cases es with
  | nil => exact .nil
  | cons e rest => exact .append (Entry.functions_closed e) (entriesFunctions_closed rest)

/-- So are those of a function, since those of its body are. -/
theorem FunctionCode.functions_closed (code : FunctionCode) : Closed code.functions := by
  cases code with
  | mk span id parameters bodySpan body => exact .function (bodyFunctions_closed body)

/-- The functions of a statement are closed. -/
theorem Statement.functions_closed (st : Statement) : Closed st.functions := by
  cases st with
  | empty | debugger | breaks | continues => exact .nil
  | expression span x | throws span x => exact Expression.functions_closed x
  | block b => exact Block.functions_closed b
  | returns span x => exact optionFunctions_closed x
  | labeled span label body => exact Statement.functions_closed body
  | branch span test s t =>
    exact .append (Expression.functions_closed test)
      (.append (Statement.functions_closed s) (alternateFunctions_closed t))
  | switch span x cs => exact .append (Expression.functions_closed x) (casesFunctions_closed cs)
  | tryCatch span b handler finalizer =>
    exact .append (Block.functions_closed b)
      (.append (handlerFunctions_closed handler) (finalizerFunctions_closed finalizer))
  | whileLoop span test s | doWhileLoop span test s =>
    exact .append (Expression.functions_closed test) (Statement.functions_closed s)
  | forLoop span start test update s =>
    exact .append (startFunctions_closed start) (.append (optionFunctions_closed test)
      (.append (optionFunctions_closed update) (Statement.functions_closed s)))
  | forInLoop span target x s =>
    exact .append (ForInTarget.functions_closed target)
      (.append (Expression.functions_closed x) (Statement.functions_closed s))
  | varDeclaration span ds => exact declaratorsFunctions_closed ds
  | functionDeclaration code => exact FunctionCode.functions_closed code

/-- So are those of a second branch that may be missing. -/
theorem alternateFunctions_closed (st : Option Statement) : Closed (alternateFunctions st) := by
  cases st with
  | none => exact .nil
  | some st => exact Statement.functions_closed st

/-- So are those of a body. -/
theorem bodyFunctions_closed (ss : List Statement) : Closed (bodyFunctions ss) := by
  cases ss with
  | nil => exact .nil
  | cons st rest => exact .append (Statement.functions_closed st) (bodyFunctions_closed rest)

/-- So are those of a block. -/
theorem Block.functions_closed (b : Block) : Closed b.functions := by
  cases b with
  | mk span ss => exact bodyFunctions_closed ss

/-- So are those of a final block that may be missing. -/
theorem finalizerFunctions_closed (b : Option Block) : Closed (finalizerFunctions b) := by
  cases b with
  | none => exact .nil
  | some b => exact Block.functions_closed b

/-- So are those of a handler that may be missing. -/
theorem handlerFunctions_closed (clause : Option CatchClause) :
    Closed (handlerFunctions clause) := by
  rcases clause with _ | ⟨span, id, b⟩
  · exact .nil
  · exact Block.functions_closed b

/-- So are those of the cases of a switch. -/
theorem casesFunctions_closed (cs : List SwitchCase) : Closed (casesFunctions cs) := by
  rcases cs with _ | ⟨⟨span, test, ss⟩, rest⟩
  · exact .nil
  · exact .append (optionFunctions_closed test)
      (.append (bodyFunctions_closed ss) (casesFunctions_closed rest))

/-- So are those of the head of a loop. -/
theorem startFunctions_closed (start : Option ForStart) : Closed (startFunctions start) := by
  rcases start with _ | ⟨span, ds⟩ | x
  · exact .nil
  · exact declaratorsFunctions_closed ds
  · exact Expression.functions_closed x

/-- So are those of the target of a `for`-`in` loop. -/
theorem ForInTarget.functions_closed (target : ForInTarget) : Closed target.functions := by
  rcases target with ⟨span, id⟩ | x
  · exact .nil
  · exact Expression.functions_closed x

/-- So are those of the initial values of declarations. -/
theorem declaratorsFunctions_closed (ds : List Declarator) :
    Closed (declaratorsFunctions ds) := by
  rcases ds with _ | ⟨⟨span, id, x⟩, rest⟩
  · exact .nil
  · exact .append (optionFunctions_closed x) (declaratorsFunctions_closed rest)

end

/-- The functions that are written in a function of a program are written in the program. -/
theorem Program.functions_closed (p : Program) : Closed p.functions := bodyFunctions_closed p.body

/-! ## Hoisted functions -/

section

variable {codes codes' more more' : List FunctionCode}

/-- Parts of two lists are parts of both together. -/
theorem append_subset_append (h : codes ⊆ codes') (h' : more ⊆ more') :
    codes ++ more ⊆ codes' ++ more' :=
  List.append_subset.2
    ⟨List.subset_append_of_subset_left _ h, List.subset_append_of_subset_right _ h'⟩

end

mutual

/-- What is hoisted out of a statement is written in it. -/
theorem Statement.hoistedFunctions_subset (st : Statement) :
    st.hoistedFunctions ⊆ st.functions := by
  cases st with
  | functionDeclaration code => exact List.cons_subset.2 ⟨code.mem_functions, List.nil_subset _⟩
  | block b => exact Block.hoistedFunctions_subset b
  | labeled span label body => exact Statement.hoistedFunctions_subset body
  | branch span test s t =>
    refine List.subset_append_of_subset_right _ ?_
    have first := Statement.hoistedFunctions_subset s
    rcases t with _ | t <;> rw [Statement.hoistedFunctions]
    · exact append_subset_append first (List.nil_subset _)
    · exact append_subset_append first (Statement.hoistedFunctions_subset t)
  | switch span x cs =>
    exact List.subset_append_of_subset_right _ (casesHoistedFunctions_subset cs)
  | tryCatch span b handler finalizer =>
    have first := Block.hoistedFunctions_subset b
    -- Without a handler or a last block nothing is hoisted out of it.
    have none {codes : List FunctionCode} : [] ⊆ codes := List.nil_subset _
    rcases handler with _ | ⟨_, _, body⟩ <;> rcases finalizer with _ | last <;>
      rw [Statement.hoistedFunctions, List.append_assoc] <;>
      refine append_subset_append first ?_
    · exact append_subset_append none none
    · exact append_subset_append none (Block.hoistedFunctions_subset last)
    · exact append_subset_append (Block.hoistedFunctions_subset body) none
    · exact append_subset_append (Block.hoistedFunctions_subset body)
        (Block.hoistedFunctions_subset last)
  | _ => exact List.nil_subset _

/-- What is hoisted out of a block is written in it. -/
theorem Block.hoistedFunctions_subset (b : Block) : b.hoistedFunctions ⊆ b.functions := by
  cases b with
  | mk span ss => exact hoistedFunctions_subset ss

/-- What is hoisted out of a body is written in it. -/
theorem hoistedFunctions_subset (ss : List Statement) :
    hoistedFunctions ss ⊆ bodyFunctions ss := by
  cases ss with
  | nil => exact List.nil_subset _
  | cons st rest =>
    exact append_subset_append (Statement.hoistedFunctions_subset st) (hoistedFunctions_subset rest)

/-- What is hoisted out of the cases of a switch is written in them. -/
theorem casesHoistedFunctions_subset (cs : List SwitchCase) :
    casesHoistedFunctions cs ⊆ casesFunctions cs := by
  rcases cs with _ | ⟨⟨span, test, ss⟩, rest⟩
  · exact List.nil_subset _
  · refine List.subset_append_of_subset_right _ ?_
    exact append_subset_append (hoistedFunctions_subset ss) (casesHoistedFunctions_subset rest)

end

end AbstractScript

import AbstractScript.Proofs.HoistedFunctions
import AbstractScript.Proofs.NestedSpans
import AbstractScript.Proofs.WrittenFunctions
import Mathlib.Data.List.Flatten
import Mathlib.Data.List.Induction

/-!
# Declared variables

The variables of a statement list are those that a `var` declares anywhere in it, in a statement or
in the head of a loop, but not in a nested function (`variablesWithin`). The search for their names
keeps each name where it finds it first. In what is read from a text, the variables are found in the
order in which they are written (`SpanTree.InOrder`), so that the names are listed in the order of
their first declarations in the text (`varNames_inOrder`).
-/
namespace AbstractScript

/-! ## The variables of a statement list -/

/-- The variables that a statement declares itself, as a declaration or in the head of a loop. -/
def Statement.ownVariables : Statement → List Identifier
  | varDeclaration _ ds => ds.map Declarator.id
  | forLoop _ (some (.varDeclaration _ ds)) _ _ _ => ds.map Declarator.id
  | forInLoop _ (.variable _ id) _ _ => [id]
  | _ => []

/-- The variables that are declared anywhere in a statement list but not in nested functions, in
source order and with repetitions. -/
def variablesWithin (ss : List Statement) : List Identifier :=
  (statementsWithin ss).flatMap Statement.ownVariables

section

variable {s : Statement} {ss ts rest : List Statement}

/-- No statements declare no variables. -/
theorem variablesWithin_nil : variablesWithin [] = [] := by
  rw [variablesWithin, statementsWithin, List.flatMap_nil]

/-- The variables of a list are those of the first statement, then of its parts, then of the rest.
-/
theorem variablesWithin_cons : variablesWithin (s :: rest) =
    s.ownVariables ++ (variablesWithin s.parts ++ variablesWithin rest) := by
  rw [variablesWithin, statementsWithin, List.flatMap_cons, List.flatMap_append]
  rfl

/-- The names in two lists after one another are found one list after the other. -/
theorem listDeclaredNames_append :
    listDeclaredNames (ss ++ ts) = listDeclaredNames ss ++ listDeclaredNames ts := by
  induction ss with
  | nil => rfl
  | cons s ss ih =>
    rw [List.cons_append, listDeclaredNames, ih, listDeclaredNames, List.append_assoc]

/-- The cases of a switch declare what their statements declare in order. -/
theorem casesDeclaredNames_eq (cases : List SwitchCase) :
    casesDeclaredNames cases = listDeclaredNames (cases.flatMap SwitchCase.consequent) := by
  induction cases with
  | nil => rfl
  | cons c cases ih =>
    rw [List.flatMap_cons, listDeclaredNames_append, ← ih]
    cases c
    rfl

/-- The names of declarations are those of their identifiers. -/
theorem Declarator.names_eq (ds : List Declarator) :
    names ds = (ds.map Declarator.id).map Identifier.name := by
  rw [names, List.map_map]
  rfl

/-- The names that are found in a statement are its own and those found in its parts. -/
theorem Statement.declaredNames_eq (s : Statement) :
    s.declaredNames = s.ownVariables.map Identifier.name ++ listDeclaredNames s.parts := by
  have single (body : Statement) : body.declaredNames = listDeclaredNames [body] :=
    (List.append_nil _).symm
  have block (b : Block) : Block.declaredNames b = listDeclaredNames b.body := by
    cases b
    rfl
  cases s with
  | block b => exact block b
  | labeled span label body => exact single body
  | whileLoop span test body => exact single body
  | doWhileLoop span test body => exact single body
  | branch span test consequent alternate =>
    cases alternate with
    | none => rfl
    | some other => exact congrArg (consequent.declaredNames ++ ·) (single other)
  | forLoop span start test update body =>
    rcases start with _ | ⟨declared, ds⟩ | init
    · exact single body
    · exact congrArg₂ (· ++ ·) (Declarator.names_eq ds) (single body)
    · exact single body
  | forInLoop span target object body =>
    cases target with
    | «variable» declared id => exact congrArg (id.name :: ·) (single body)
    | expression target => exact single body
  | switch span test cases => exact casesDeclaredNames_eq cases
  | tryCatch span b handler finalizer =>
    rcases handler with _ | ⟨span, parameter, body⟩ <;> rcases finalizer with _ | last <;>
      simp [Statement.declaredNames, ownVariables, parts, listDeclaredNames_append, block,
        CatchClause.body]
  | varDeclaration span ds =>
    exact (Declarator.names_eq ds).trans (List.append_nil _).symm
  | _ => rfl

/-- The search finds the names of all variables. -/
theorem listDeclaredNames_eq (ss : List Statement) :
    listDeclaredNames ss = (variablesWithin ss).map Identifier.name := by
  induction ss using statementsWithin.induct with
  | case1 => rw [variablesWithin_nil, listDeclaredNames, List.map_nil]
  | case2 s rest inner outer =>
    rw [listDeclaredNames, s.declaredNames_eq, variablesWithin_cons, List.map_append,
      List.map_append, inner, outer, List.append_assoc]

end

/-! ## First occurrences -/

/-- The name `a` stands in a list of names with no `b` before it. -/
def StandsFirst (names : List String) (a b : String) : Prop :=
  ∃ before after, names = before ++ a :: after ∧ b ∉ before

/-- Names are collected in the order of their first occurrences. -/
theorem pairwise_foldl_addName (names : List String) :
    (names.foldl addName []).Pairwise (StandsFirst names) := by
  -- by induction from the end: a further name changes nothing about those before it
  induction names using List.reverseRecOn with
  | nil => exact .nil
  | append_singleton names name ih =>
    have further {a b : String} (h : StandsFirst names a b) :
        StandsFirst (names ++ [name]) a b := by
      obtain ⟨before, after, rfl, other⟩ := h
      exact ⟨before, after ++ [name], by simp, other⟩
    rw [List.foldl_append, List.foldl_cons, List.foldl_nil, addName]
    split
    next => exact ih.imp further
    next new =>
      -- the new name is the last one, and all others have occurred before it
      refine List.pairwise_append.2 ⟨ih.imp further, List.pairwise_singleton .., ?_⟩
      intro a found b last
      rw [List.mem_singleton.1 last]
      have unseen (n : String) : n ∈ names.foldl addName [] ↔ n ∈ names := by
        simp [mem_foldl_addName]
      obtain ⟨before, after, rfl⟩ := List.mem_iff_append.1 ((unseen a).1 found)
      refine ⟨before, after ++ [name], by simp, fun seen => new ((unseen name).2 ?_)⟩
      exact List.mem_append_left _ seen

/-! ## Trees inside trees -/

namespace SpanTree

/-- Trees of nesting spans, one after another. -/
structure InOrder (source : String) (ts : List SpanTree) : Prop where
  nested : ∀ t ∈ ts, t.Nested source
  increasing : ts.Pairwise fun t u => t.span.stop ≤ u.span.start

/-- Trees that can stand in place of others, among any further ones. -/
def Contain (ts us : List SpanTree) : Prop :=
  ∀ source before after, InOrder source (before ++ (ts ++ after)) →
    InOrder source (before ++ (us ++ after))

namespace Contain

variable {span : Span} {name : Option String} {ts ts' us us' : List SpanTree}

/-- Trees contain themselves. -/
theorem refl (ts : List SpanTree) : Contain ts ts := fun _ _ _ => id

/-- What parts contain, the whole contains. -/
theorem trans (h : Contain ts us) (h' : Contain us us') : Contain ts us' :=
  fun source before after inOrder => h' source before after (h source before after inOrder)

/-- Lists of trees contain what their two halves contain. -/
theorem append (h : Contain ts us) (h' : Contain ts' us') : Contain (ts ++ ts') (us ++ us') := by
  intro source before after inOrder
  rw [List.append_assoc] at inOrder ⊢
  have first := h source before _ inOrder
  rw [← List.append_assoc before] at first ⊢
  exact h' source _ after first

/-- Some of the trees. -/
theorem sublist (some : us.Sublist ts) : Contain ts us := by
  intro source before after inOrder
  have fewer : (before ++ (us ++ after)).Sublist (before ++ (ts ++ after)) :=
    (List.Sublist.refl _).append (some.append (.refl _))
  exact ⟨fun t mem => inOrder.nested t (fewer.subset mem), inOrder.increasing.sublist fewer⟩

/-- The parts of a node. -/
theorem node : Contain [.node span name ts] ts := by
  intro source before after inOrder
  obtain ⟨first, others⟩ := List.forall_mem_append.1 inOrder.nested
  obtain ⟨node, last⟩ := List.forall_mem_cons.1 others
  obtain ⟨increasing, increasing', apart⟩ := List.pairwise_append.1 inOrder.increasing
  obtain ⟨later, increasing''⟩ := List.pairwise_cons.1 increasing'
  cases node with
  | node forward bounded inside parts named below =>
    constructor
    · exact List.forall_mem_append.2 ⟨first, List.forall_mem_append.2 ⟨below, last⟩⟩
    · refine List.pairwise_append.2 ⟨increasing, List.pairwise_append.2
        ⟨parts.imp And.right, increasing'', fun part mem u after => ?_⟩, fun t mem u other => ?_⟩
      · exact Nat.le_trans (inside part mem).2 (later u after)
      · rcases List.mem_append.1 other with part | after
        · exact Nat.le_trans (apart t mem _ List.mem_cons_self) (inside u part).1
        · exact apart t mem u (List.mem_cons_of_mem _ after)

/-- What the parts of a node contain. -/
theorem within (h : Contain ts us) : Contain [.node span name ts] us := node.trans h

end Contain

end SpanTree

open SpanTree

/-! ## Variables in the text -/

/-- The trees of two lists of statements come one after the other. -/
theorem statementSpans_append (ss ts : List Statement) :
    statementSpans (ss ++ ts) = statementSpans ss ++ statementSpans ts := by
  induction ss with
  | nil => rfl
  | cons s ss ih => rw [List.cons_append, statementSpans, ih, statementSpans, List.cons_append]

/-- A block contains its statements. -/
theorem contain_block (b : Block) : Contain [b.spans] (statementSpans b.body) := by
  cases b
  exact .node

/-- Declarations contain their identifiers. -/
theorem contain_declarators (ds : List Declarator) :
    Contain (declaratorSpans ds) ((ds.map Declarator.id).map Identifier.spans) := by
  induction ds with
  | nil => exact .refl _
  | cons d ds ih =>
    rcases d with ⟨span, id, value⟩
    have declared : Contain [Declarator.spans (.mk span id value)] [id.spans] :=
      .within (.sublist (List.singleton_sublist.2 List.mem_cons_self))
    exact declared.append ih

/-- The cases of a switch contain their statements. -/
theorem contain_cases (cases : List SwitchCase) :
    Contain (caseSpans cases) (statementSpans (cases.flatMap SwitchCase.consequent)) := by
  induction cases with
  | nil => exact .refl _
  | cons c cases ih =>
    rcases c with ⟨span, test, consequent⟩
    rw [List.flatMap_cons, statementSpans_append]
    have listed : Contain [SwitchCase.spans (.mk span test consequent)]
        (statementSpans consequent) := .within (.sublist (List.sublist_append_right _ _))
    exact listed.append ih

/-- A handler contains the statements of its block. -/
theorem contain_handler (handler : Option CatchClause) :
    Contain (handlerSpans handler) (statementSpans (handler.toList.flatMap (·.body.body))) := by
  rcases handler with _ | ⟨span, parameter, body⟩
  · exact .refl _
  · have clause : Contain (handlerSpans (some (.mk span parameter body))) [body.spans] :=
      .within (.sublist (List.sublist_cons_self ..))
    rw [Option.toList_some, List.flatMap_singleton]
    exact clause.trans (contain_block body)

/-- A final block contains its statements. -/
theorem contain_finalizer (finalizer : Option Block) :
    Contain (finalizerSpans finalizer) (statementSpans (finalizer.toList.flatMap (·.body))) := by
  cases finalizer with
  | none => exact .refl _
  | some b =>
    rw [Option.toList_some, List.flatMap_singleton]
    exact contain_block b

/-- A statement contains its variables and then its parts. -/
theorem Statement.contain_parts (s : Statement) :
    Contain [s.spans] (s.ownVariables.map Identifier.spans ++ statementSpans s.parts) := by
  -- expressions and labels contain no variables that are declared
  have skipped (ts : List SpanTree) : Contain ts [] := .sublist (List.nil_sublist _)
  -- of all parts the body is the last one
  have last (ts : List SpanTree) (body : Statement) :
      Contain (ts ++ [body.spans]) (statementSpans [body]) :=
    .sublist (List.sublist_append_right _ _)
  cases s with
  | block b => exact contain_block b
  | labeled span label body => exact .within (last [label.spans] body)
  | whileLoop span test body => exact .within (last [test.spans] body)
  | doWhileLoop span test body =>
    exact .within (.sublist (List.singleton_sublist.2 List.mem_cons_self))
  | branch span test consequent alternate =>
    cases alternate <;> exact .within (.sublist (List.sublist_cons_self ..))
  | switch span test cases =>
    exact .within ((skipped [test.spans]).append (contain_cases cases))
  | tryCatch span b handler finalizer =>
    have parts := ((contain_block b).append (contain_handler handler)).append
      (contain_finalizer finalizer)
    rw [← statementSpans_append, ← statementSpans_append, List.append_assoc [b.spans]] at parts
    exact .within parts
  | forLoop span start test update body =>
    have rest := last (optionSpans test ++ optionSpans update) body
    rw [List.append_assoc] at rest
    rcases start with _ | ⟨declared, ds⟩ | init
    · exact .within rest
    · have declaration : Contain (startSpans (some (.varDeclaration declared ds)))
          ((ds.map Declarator.id).map Identifier.spans) := .within (contain_declarators ds)
      exact .within (declaration.append rest)
    · exact .within ((skipped [init.spans]).append rest)
  | forInLoop span target object body =>
    cases target with
    | «variable» declared id =>
      have declaration : Contain [ForInTarget.spans (.variable declared id)] [id.spans] := .node
      exact .within (declaration.append (last [object.spans] body))
    | expression target => exact .within (last [target.spans, object.spans] body)
  | varDeclaration span ds =>
    have declaration := contain_declarators ds
    rw [← List.append_nil (List.map _ _)] at declaration
    exact .within declaration
  | _ => exact skipped _

/-- The variables of a statement list stand in it in their order. -/
theorem contain_variables (ss : List Statement) :
    Contain (statementSpans ss) ((variablesWithin ss).map Identifier.spans) := by
  induction ss using statementsWithin.induct with
  | case1 =>
    rw [variablesWithin_nil]
    exact .refl _
  | case2 s rest inner outer =>
    have parts := s.contain_parts.trans ((Contain.refl _).append inner)
    rw [variablesWithin_cons, ← List.append_assoc, List.map_append, List.map_append]
    exact parts.append outer

/-! ## Functions in the text -/

/-- The trees of some functions stand in some trees. -/
def ContainAll (ts : List SpanTree) (codes : List FunctionCode) : Prop :=
  ∀ code ∈ codes, Contain ts [code.spans]

namespace ContainAll

variable {ts us : List SpanTree} {span : Span} {codes more : List FunctionCode}

/-- Without functions there is nothing to contain. -/
theorem nil : ContainAll ts [] := List.forall_mem_nil _

/-- The functions of two lists of trees are contained one after the other. -/
theorem append (h : ContainAll ts codes) (h' : ContainAll us more) :
    ContainAll (ts ++ us) (codes ++ more) := by
  intro code hcode
  have left : Contain (ts ++ us) ts := .sublist (List.sublist_append_left _ _)
  have right : Contain (ts ++ us) us := .sublist (List.sublist_append_right _ _)
  rcases List.mem_append.1 hcode with first | last
  · exact left.trans (h code first)
  · exact right.trans (h' code last)

/-- The functions in the parts of a node. -/
theorem node (h : ContainAll ts codes) : ContainAll [.node span none ts] codes :=
  fun code hcode => (h code hcode).within

/-- The functions in trees that stand after others. -/
theorem after (ts : List SpanTree) (h : ContainAll us codes) : ContainAll (ts ++ us) codes := by
  have both : ContainAll (ts ++ us) ([] ++ codes) := nil.append h
  exact both

end ContainAll

mutual

/-- An expression contains the functions that are written in it. -/
theorem Expression.contain_functions (x : Expression) : ContainAll [x.spans] x.functions := by
  cases x with
  | literal | identifier | this => exact .nil
  | array span xs => exact (contain_elements xs).node
  | object span es => exact (contain_entries es).node
  | function code => exact FunctionCode.contain_functions code
  | unary span operator x | update span operator leading x =>
    exact (Expression.contain_functions x).node
  | member span x property =>
    -- the name of a property contains no function
    have object : ContainAll ([x.spans] ++ [property.spans]) (x.functions ++ []) :=
      (Expression.contain_functions x).append .nil
    rw [List.append_nil] at object
    exact object.node
  | binary span operator x y | assignment span operator x y | logical span operator x y
  | index span x y =>
    exact ((Expression.contain_functions x).append (Expression.contain_functions y)).node
  | conditional span test x y =>
    exact ((Expression.contain_functions test).append
      ((Expression.contain_functions x).append (Expression.contain_functions y))).node
  | call span f xs | construct span f xs =>
    exact ((Expression.contain_functions f).append (contain_expressions xs)).node
  | sequence span xs => exact (contain_expressions xs).node

/-- So does an expression that may be missing. -/
theorem contain_option (x : Option Expression) :
    ContainAll (optionSpans x) (optionFunctions x) := by
  cases x with
  | none => exact .nil
  | some x => exact Expression.contain_functions x

/-- So do the arguments of a call. -/
theorem contain_expressions (xs : List Expression) :
    ContainAll (expressionSpans xs) (allFunctions xs) := by
  cases xs with
  | nil => exact .nil
  | cons x rest => exact (Expression.contain_functions x).append (contain_expressions rest)

/-- So do the elements of an array literal, whose gaps contain nothing. -/
theorem contain_elements (xs : List (Option Expression)) :
    ContainAll (elementSpans xs) (elementsFunctions xs) := by
  cases xs with
  | nil => exact .nil
  | cons x rest => exact (contain_option x).append (contain_elements rest)

/-- So does an entry of an object literal. -/
theorem Entry.contain_functions (e : Entry) : ContainAll [e.spans] e.functions := by
  cases e with
  | value span key x => exact (Expression.contain_functions x).node
  | getter span key code | setter span key code => exact (FunctionCode.contain_functions code).node

/-- So do all entries together. -/
theorem contain_entries (es : List Entry) : ContainAll (entrySpans es) (entriesFunctions es) := by
  cases es with
  | nil => exact .nil
  | cons e rest => exact (Entry.contain_functions e).append (contain_entries rest)

/-- A function contains itself and the functions written in it. -/
theorem FunctionCode.contain_functions (code : FunctionCode) :
    ContainAll [code.spans] code.functions := by
  cases code with
  | mk span id parameters bodySpan body =>
    refine List.forall_mem_cons.2 ⟨.refl _, ?_⟩
    have written : ContainAll [.node bodySpan none (statementSpans body)] (bodyFunctions body) :=
      (contain_statements body).node
    exact ((written.after _).after _).node

/-- A statement contains the functions that are written in it. -/
theorem Statement.contain_functions (st : Statement) : ContainAll [st.spans] st.functions := by
  cases st with
  | empty | debugger | breaks | continues => exact .nil
  | expression span x | throws span x => exact (Expression.contain_functions x).node
  | block b => exact Block.contain_functions b
  | returns span x => exact (contain_option x).node
  | labeled span label body =>
    exact ((Statement.contain_functions body).after [label.spans]).node
  | branch span test s t =>
    exact ((Expression.contain_functions test).append
      ((Statement.contain_functions s).append (contain_alternate t))).node
  | switch span x cs => exact ((Expression.contain_functions x).append (contain_caseFunctions cs)).node
  | tryCatch span b handler finalizer =>
    exact ((Block.contain_functions b).append
      ((contain_handlerFunctions handler).append (contain_finalizerFunctions finalizer))).node
  | whileLoop span test s =>
    exact ((Expression.contain_functions test).append (Statement.contain_functions s)).node
  | doWhileLoop span test s =>
    -- The test is written after the body.
    have parts := (Statement.contain_functions s).append (Expression.contain_functions test)
    refine ContainAll.node fun code hcode => parts code ?_
    exact List.mem_append.2 (List.mem_append.1 hcode).symm
  | forLoop span start test update s =>
    exact ((contain_start start).append ((contain_option test).append
      ((contain_option update).append (Statement.contain_functions s)))).node
  | forInLoop span target x s =>
    exact ((ForInTarget.contain_functions target).append
      ((Expression.contain_functions x).append (Statement.contain_functions s))).node
  | varDeclaration span ds => exact (contain_declaratorFunctions ds).node
  | functionDeclaration code => exact FunctionCode.contain_functions code

/-- So does a second branch that may be missing. -/
theorem contain_alternate (st : Option Statement) :
    ContainAll (alternateSpans st) (alternateFunctions st) := by
  cases st with
  | none => exact .nil
  | some st => exact Statement.contain_functions st

/-- So do the statements of a list. -/
theorem contain_statements (ss : List Statement) :
    ContainAll (statementSpans ss) (bodyFunctions ss) := by
  cases ss with
  | nil => exact .nil
  | cons st rest => exact (Statement.contain_functions st).append (contain_statements rest)

/-- So do the statements of a block. -/
theorem Block.contain_functions (b : Block) : ContainAll [b.spans] b.functions := by
  cases b with
  | mk span ss => exact (contain_statements ss).node

/-- So does a final block that may be missing. -/
theorem contain_finalizerFunctions (b : Option Block) :
    ContainAll (finalizerSpans b) (finalizerFunctions b) := by
  cases b with
  | none => exact .nil
  | some b => exact Block.contain_functions b

/-- So does a handler that may be missing. -/
theorem contain_handlerFunctions (clause : Option CatchClause) :
    ContainAll (handlerSpans clause) (handlerFunctions clause) := by
  rcases clause with _ | ⟨span, id, b⟩
  · exact .nil
  · exact ((Block.contain_functions b).after [id.spans]).node

/-- So do the cases of a switch. -/
theorem contain_caseFunctions (cs : List SwitchCase) :
    ContainAll (caseSpans cs) (casesFunctions cs) := by
  rcases cs with _ | ⟨⟨span, test, ss⟩, rest⟩
  · exact .nil
  · have first : ContainAll [SwitchCase.spans (.mk span test ss)]
        (optionFunctions test ++ bodyFunctions ss) :=
      ((contain_option test).append (contain_statements ss)).node
    have listed := first.append (contain_caseFunctions rest)
    rwa [List.append_assoc] at listed

/-- So does the head of a loop. -/
theorem contain_start (start : Option ForStart) :
    ContainAll (startSpans start) (startFunctions start) := by
  rcases start with _ | ⟨span, ds⟩ | x
  · exact .nil
  · exact (contain_declaratorFunctions ds).node
  · exact Expression.contain_functions x

/-- So does the target of a `for`-`in` loop. -/
theorem ForInTarget.contain_functions (target : ForInTarget) :
    ContainAll [target.spans] target.functions := by
  rcases target with ⟨span, id⟩ | x
  · exact .nil
  · exact Expression.contain_functions x

/-- So do the initial values of declarations. -/
theorem contain_declaratorFunctions (ds : List Declarator) :
    ContainAll (declaratorSpans ds) (declaratorsFunctions ds) := by
  rcases ds with _ | ⟨⟨span, id, x⟩, rest⟩
  · exact .nil
  · have first : ContainAll [Declarator.spans (.mk span id x)] (optionFunctions x) :=
      ((contain_option x).after [id.spans]).node
    exact first.append (contain_declaratorFunctions rest)

end

/-! ## The statement lists of a program -/

/-- A statement list of a program is the body of the program or of a function that is written in
it, or a list that stands in a statement of one of these: the body of a block, the statements of a
case. -/
def Program.Lists (p : Program) (ss : List Statement) : Prop :=
  ∃ body, (body = p.body ∨ ∃ code ∈ p.functions, body = code.body) ∧
    (ss = body ∨ ∃ s ∈ statementsWithin body, ss <:+: s.parts)

section

variable {p : Program} {s : Statement} {body ss ts : List Statement}

/-- A stretch of a statement list has some of the statements within the list. -/
theorem statementsWithin_sublist (h : ts <:+: ss) :
    (statementsWithin ts).Sublist (statementsWithin ss) := by
  obtain ⟨before, after, rfl⟩ := h
  rw [statementsWithin_append, statementsWithin_append, List.append_assoc]
  exact (List.sublist_append_left _ _).trans (List.sublist_append_right _ _)

/-- What is within the parts of a statement is within any list that has it. -/
theorem statementsWithin_parts_sublist (h : s ∈ statementsWithin ss) :
    (statementsWithin s.parts).Sublist (statementsWithin ss) := by
  induction ss using statementsWithin.induct with
  | case1 =>
    rw [statementsWithin] at h
    cases h
  | case2 first rest inner outer =>
    rw [statementsWithin] at h ⊢
    refine .trans ?_ (List.sublist_cons_self ..)
    rcases List.mem_cons.1 h with rfl | h
    · exact List.sublist_append_left _ _
    · rcases List.mem_append.1 h with inside | later
      · exact (inner inside).trans (List.sublist_append_left _ _)
      · exact (outer later).trans (List.sublist_append_right _ _)

/-- What is read from a text has the variables of each statement list in the order of the text. -/
theorem Program.Lists.inOrder {file source : String} (read : Program.ofSource file source = .ok p)
    (listed : p.Lists ss) :
    InOrder source ((variablesWithin ss).map Identifier.spans) := by
  obtain ⟨body, whole, part⟩ := listed
  -- the program lies in its source, and so does everything that it contains
  have program : InOrder source [p.spans] :=
    ⟨List.forall_mem_singleton.2 (spans_nested read), List.pairwise_singleton ..⟩
  have contains : Contain [p.spans] (statementSpans body) := by
    rcases whole with rfl | ⟨code, written, rfl⟩
    · exact .node
    · have function : Contain [p.spans] [code.spans] :=
        (contain_statements p.body code written).within
      refine function.trans ?_
      rcases code with ⟨span, id, parameters, bodySpan, body⟩
      -- of all parts of a function the body is the last one
      have last : Contain [FunctionCode.spans (.mk span id parameters bodySpan body)]
          [.node bodySpan none (statementSpans body)] := by
        refine .within (.sublist ?_)
        rw [← List.append_assoc]
        exact List.sublist_append_right _ _
      exact last.trans .node
  have inBody : InOrder source ((variablesWithin body).map Identifier.spans) := by
    have found := (contains.trans (contain_variables body)) source [] []
    rw [List.nil_append, List.append_nil, List.nil_append, List.append_nil] at found
    exact found program
  -- the variables of a part are among those of the whole
  have fewer : (statementsWithin ss).Sublist (statementsWithin body) := by
    rcases part with rfl | ⟨s, within, part⟩
    · exact .refl _
    · exact (statementsWithin_sublist part).trans (statementsWithin_parts_sublist within)
  have some := (fewer.flatMap Statement.ownVariables).map Identifier.spans
  exact ⟨fun t mem => inBody.nested t (some.subset mem), inBody.increasing.sublist some⟩

/-- **The variables are listed once, in the order of the text.** In what is read from a text, the
search in a statement list finds the names of all variables that are declared in it, each once. A
name stands before another one if one of its declarations is written before all of the other's. -/
theorem varNames_inOrder {file source : String} (read : Program.ofSource file source = .ok p)
    (listed : p.Lists ss) :
    (∀ name, name ∈ varNames ss ↔ ∃ id ∈ variablesWithin ss, id.name = name) ∧
      (varNames ss).Nodup ∧
      (varNames ss).Pairwise fun a b => ∃ x ∈ variablesWithin ss, x.name = a ∧
        ∀ y ∈ variablesWithin ss, y.name = b → x.span.stop ≤ y.span.start := by
  refine ⟨fun name => ?_, nodup_varNames ss, ?_⟩
  · rw [mem_varNames, listDeclaredNames_eq, List.mem_map]
  · have increasing := (listed.inOrder read).increasing
    have first := pairwise_foldl_addName (listDeclaredNames ss)
    refine (first.and (nodup_varNames ss)).imp ?_
    rintro a b ⟨⟨before, after, names, missing⟩, different⟩
    rw [listDeclaredNames_eq] at names
    -- the list is split at the variable in which the first name occurs first
    obtain ⟨earlier, others, split, rfl, rest⟩ := List.map_eq_append_iff.1 names
    obtain ⟨x, later, rfl, rfl, rfl⟩ := List.map_eq_cons_iff.1 rest
    rw [split] at increasing ⊢
    refine ⟨x, by simp, rfl, fun y mem named => ?_⟩
    rw [List.map_append, List.map_cons] at increasing
    have behind := (List.pairwise_cons.1 (List.pairwise_append.1 increasing).2.1).1
    rcases List.mem_append.1 mem with mem | mem
    · exact absurd (named ▸ List.mem_map_of_mem mem) missing
    · rcases List.mem_cons.1 mem with rfl | mem
      · exact absurd named different
      · exact behind _ (List.mem_map_of_mem mem)

end

/-- Declarations in a block, in the head of a loop and again in its body. -/
theorem varNames_inOrder_block :
    ∃ p, Program.ofSource "a.js" "if (x) { var b = a; } for (var a in o) { var b; }" = .ok p ∧
      p.Lists p.body ∧ varNames p.body = ["b", "a"] ∧
      (varNames p.body).Pairwise fun a b => ∃ x ∈ variablesWithin p.body, x.name = a ∧
        ∀ y ∈ variablesWithin p.body, y.name = b → x.span.stop ≤ y.span.start := by
  have names : ((Program.ofSource "a.js" "if (x) { var b = a; } for (var a in o) { var b; }").map
      (varNames ·.body)).toOption = some ["b", "a"] := by
    decide +kernel
  cases read : Program.ofSource "a.js" "if (x) { var b = a; } for (var a in o) { var b; }" with
  | ok p =>
    rw [read] at names
    have whole : p.Lists p.body := ⟨p.body, .inl rfl, .inl rfl⟩
    exact ⟨p, rfl, whole, Option.some.inj names, (varNames_inOrder read whole).2.2⟩
  | error e =>
    rw [read] at names
    cases names

end AbstractScript

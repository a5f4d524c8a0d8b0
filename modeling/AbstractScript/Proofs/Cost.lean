import AbstractScript.Proofs.WrittenFunctions
import Mathlib.Algebra.Order.BigOperators.Group.List
import Mathlib.Algebra.Order.Group.Nat

/-!
# What evaluation costs

The cost of a node is a bound for the number of rules that its evaluation begins, if a loop makes at
most `loops` passes and a call of a function of the program begins at most `calls` rules. A node is
one rule; a part that can be evaluated more than once counts as often. From the costs of bodies
follows what calls cost up to any depth (`callCost`), and what a program costs (`Program.cost`).
-/
namespace AbstractScript

/-- What the passes of a loop cost if its parts cost as much: they are evaluated at most four times
for each pass. -/
def loopCost (loops parts : Nat) : Nat := (loops + 1) * (4 * parts)

/-- What the passes of a loop over names cost if its parts cost as much. -/
def nameLoopCost (loops parts : Nat) : Nat := (loops + 1) * (2 * parts)

section

variable (loops calls : Nat)

mutual

/-- The cost of an expression. -/
def Expression.cost : Expression → Nat
  | .literal .. => 1
  | .identifier _ => 1
  | .this _ => 1
  | .array _ xs => elementsCost xs + 1
  | .object _ es => entriesCost es + 1
  | .function _ => 1
  | .unary _ _ x => x.cost + 1
  | .update _ _ _ x => x.cost + 1
  | .binary _ _ x y => x.cost + y.cost + 1
  | .assignment _ _ x y => x.cost + y.cost + 1
  | .logical _ _ x y => x.cost + y.cost + 1
  | .conditional _ test x y => test.cost + (x.cost + y.cost) + 1
  | .call _ f xs => f.cost + (allCost xs + calls) + 1
  | .construct _ f xs => f.cost + (allCost xs + calls) + 1
  | .member _ x _ => x.cost + 1
  | .index _ x key => x.cost + key.cost + 1
  | .sequence _ xs => allCost xs + 1

/-- The cost of an expression, if there is one. -/
def optionCost : Option Expression → Nat
  | none => 0
  | some x => x.cost

/-- The cost of some expressions. -/
def allCost : List Expression → Nat
  | [] => 0
  | x :: rest => x.cost + allCost rest

/-- The cost of the elements of an array literal. -/
def elementsCost : List (Option Expression) → Nat
  | [] => 0
  | x :: rest => optionCost x + elementsCost rest

/-- The cost of an entry of an object literal. -/
def Entry.cost : Entry → Nat
  | .value _ _ x => x.cost
  | .getter .. => 0
  | .setter .. => 0

/-- The cost of the entries of an object literal. -/
def entriesCost : List Entry → Nat
  | [] => 0
  | e :: rest => e.cost + entriesCost rest

/-- The cost of a statement. -/
def Statement.cost : Statement → Nat
  | .expression _ x => x.cost + 1
  | .block b => b.cost + 1
  | .empty _ => 1
  | .debugger _ => 1
  | .returns _ x => optionCost x + 1
  | .breaks .. => 1
  | .continues .. => 1
  | .labeled _ _ s => s.cost + 1
  | .branch _ test s t => test.cost + (s.cost + alternateCost t) + 1
  | .switch _ x cs => x.cost + (casesCost cs + casesCost cs) + 1
  | .throws _ x => x.cost + 1
  | .tryCatch _ b handler finalizer => b.cost + (handlerCost handler + finalizerCost finalizer) + 1
  | .whileLoop _ test s => loopCost loops (test.cost + s.cost) + 1
  | .doWhileLoop _ test s => loopCost loops (test.cost + s.cost) + 1
  | .forLoop _ start test update s =>
    startCost start + loopCost loops (optionCost test + optionCost update + s.cost) + 1
  | .forInLoop _ target x s => x.cost + nameLoopCost loops (target.cost + s.cost) + 1
  | .varDeclaration _ ds => declaratorsCost ds + 1
  | .functionDeclaration _ => 1

/-- The cost of the second statement of an `if`, if there is one. -/
def alternateCost : Option Statement → Nat
  | none => 0
  | some s => s.cost

/-- The cost of some statements. -/
def bodyCost : List Statement → Nat
  | [] => 0
  | s :: rest => s.cost + bodyCost rest

/-- The cost of a block. -/
def Block.cost : Block → Nat
  | .mk _ ss => bodyCost ss

/-- The cost of the last block of a `try`, if there is one. -/
def finalizerCost : Option Block → Nat
  | none => 0
  | some b => b.cost

/-- The cost of the handler of a `try`, if there is one. -/
def handlerCost : Option CatchClause → Nat
  | none => 0
  | some (.mk _ _ b) => b.cost

/-- The cost of the cases of a switch. -/
def casesCost : List SwitchCase → Nat
  | [] => 0
  | .mk _ test ss :: rest => optionCost test + bodyCost ss + casesCost rest

/-- The cost of what a `for` loop does first. -/
def startCost : Option ForStart → Nat
  | none => 0
  | some (.varDeclaration _ ds) => declaratorsCost ds
  | some (.expression x) => x.cost

/-- The cost of the target of a `for-in` loop. -/
def ForInTarget.cost : ForInTarget → Nat
  | .variable .. => 0
  | .expression x => x.cost

/-- The cost of the initial values of variables. -/
def declaratorsCost : List Declarator → Nat
  | [] => 0
  | .mk _ _ x :: rest => optionCost x + declaratorsCost rest

end

end

/-! ## Calls and programs -/

variable (loops : Nat) {codes : List FunctionCode}

/-- The cost of a call of one of some functions, if calls can be nested to a depth: any of the
bodies may be evaluated. -/
def callCost (codes : List FunctionCode) : Nat → Nat
  | 0 => 0
  | depth + 1 => (codes.map fun code => bodyCost loops (callCost codes depth) code.body).sum

/-- The cost of the body of a function is part of what calls of functions cost. -/
theorem bodyCost_le_callCost {code : FunctionCode} (h : code ∈ codes) (depth : Nat) :
    bodyCost loops (callCost loops codes depth) code.body ≤ callCost loops codes (depth + 1) :=
  List.single_le_sum (fun _ _ => Nat.zero_le _) _ (List.mem_map_of_mem h)

/-- The cost of a program, in whose context calls can be nested to a depth less than `contexts`. -/
def Program.cost (p : Program) (loops contexts : Nat) : Nat :=
  bodyCost loops (callCost loops p.functions (contexts - 1)) p.body + 1

end AbstractScript

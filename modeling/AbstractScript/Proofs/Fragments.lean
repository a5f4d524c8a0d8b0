import AbstractScript.Proofs.PlainOperators

/-!
# Fragments of the language

A fragment says of each kind of node whether it is allowed. Code is *in* a fragment if all nodes are
allowed that it consists of, also inside its functions (`Program.isIn`). The functions hoisted out of
such code are in the fragment too (`bodyIsIn_hoistedFunctions`).
-/
namespace AbstractScript

/-- Which nodes are allowed. -/
structure Fragment where
  expression : Expression → Bool
  statement : Statement → Bool

mutual

/-- True if an expression is in a fragment. -/
def Expression.isIn (F : Fragment) : Expression → Bool
  | .literal span v => F.expression (.literal span v)
  | .identifier id => F.expression (.identifier id)
  | .this span => F.expression (.this span)
  | .array span xs => F.expression (.array span xs) && elementsAreIn F xs
  | .object span es => F.expression (.object span es) && entriesAreIn F es
  | .function code => F.expression (.function code) && code.isIn F
  | .unary span operator x => F.expression (.unary span operator x) && x.isIn F
  | .update span operator leading x => F.expression (.update span operator leading x) && x.isIn F
  | .binary span operator x y =>
    F.expression (.binary span operator x y) && (x.isIn F && y.isIn F)
  | .assignment span operator x y =>
    F.expression (.assignment span operator x y) && (x.isIn F && y.isIn F)
  | .logical span operator x y =>
    F.expression (.logical span operator x y) && (x.isIn F && y.isIn F)
  | .conditional span test x y =>
    F.expression (.conditional span test x y) && (test.isIn F && (x.isIn F && y.isIn F))
  | .call span f xs => F.expression (.call span f xs) && (f.isIn F && allAreIn F xs)
  | .construct span f xs => F.expression (.construct span f xs) && (f.isIn F && allAreIn F xs)
  | .member span x property => F.expression (.member span x property) && x.isIn F
  | .index span x key => F.expression (.index span x key) && (x.isIn F && key.isIn F)
  | .sequence span xs => F.expression (.sequence span xs) && allAreIn F xs

/-- True if an expression is in a fragment, if there is one. -/
def optionIsIn (F : Fragment) : Option Expression → Bool
  | none => true
  | some x => x.isIn F

/-- True if some expressions are in a fragment. -/
def allAreIn (F : Fragment) : List Expression → Bool
  | [] => true
  | x :: rest => x.isIn F && allAreIn F rest

/-- True if the elements of an array literal are in a fragment. -/
def elementsAreIn (F : Fragment) : List (Option Expression) → Bool
  | [] => true
  | x :: rest => optionIsIn F x && elementsAreIn F rest

/-- True if an entry of an object literal is in a fragment. -/
def Entry.isIn (F : Fragment) : Entry → Bool
  | .value _ _ x => x.isIn F
  | .getter _ _ code => code.isIn F
  | .setter _ _ code => code.isIn F

/-- True if the entries of an object literal are in a fragment. -/
def entriesAreIn (F : Fragment) : List Entry → Bool
  | [] => true
  | e :: rest => e.isIn F && entriesAreIn F rest

/-- True if the body of a function is in a fragment. -/
def FunctionCode.isIn (F : Fragment) : FunctionCode → Bool
  | .mk _ _ _ _ body => bodyIsIn F body

/-- True if a statement is in a fragment. -/
def Statement.isIn (F : Fragment) : Statement → Bool
  | .expression span x => F.statement (.expression span x) && x.isIn F
  | .block b => F.statement (.block b) && b.isIn F
  | .empty span => F.statement (.empty span)
  | .debugger span => F.statement (.debugger span)
  | .returns span x => F.statement (.returns span x) && optionIsIn F x
  | .breaks span label => F.statement (.breaks span label)
  | .continues span label => F.statement (.continues span label)
  | .labeled span label s => F.statement (.labeled span label s) && s.isIn F
  | .branch span test s t =>
    F.statement (.branch span test s t) && (test.isIn F && (s.isIn F && alternateIsIn F t))
  | .switch span x cs => F.statement (.switch span x cs) && (x.isIn F && casesAreIn F cs)
  | .throws span x => F.statement (.throws span x) && x.isIn F
  | .tryCatch span b handler finalizer =>
    F.statement (.tryCatch span b handler finalizer) &&
      (b.isIn F && (handlerIsIn F handler && finalizerIsIn F finalizer))
  | .whileLoop span test s => F.statement (.whileLoop span test s) && (test.isIn F && s.isIn F)
  | .doWhileLoop span test s =>
    F.statement (.doWhileLoop span test s) && (test.isIn F && s.isIn F)
  | .forLoop span start test update s =>
    F.statement (.forLoop span start test update s) &&
      (startIsIn F start && (optionIsIn F test && (optionIsIn F update && s.isIn F)))
  | .forInLoop span target x s =>
    F.statement (.forInLoop span target x s) && (target.isIn F && (x.isIn F && s.isIn F))
  | .varDeclaration span ds => F.statement (.varDeclaration span ds) && declaratorsAreIn F ds
  | .functionDeclaration code => F.statement (.functionDeclaration code) && code.isIn F

/-- True if the second statement of an `if` is in a fragment, if there is one. -/
def alternateIsIn (F : Fragment) : Option Statement → Bool
  | none => true
  | some s => s.isIn F

/-- True if some statements are in a fragment. -/
def bodyIsIn (F : Fragment) : List Statement → Bool
  | [] => true
  | s :: rest => s.isIn F && bodyIsIn F rest

/-- True if a block is in a fragment. -/
def Block.isIn (F : Fragment) : Block → Bool
  | .mk _ ss => bodyIsIn F ss

/-- True if the last block of a `try` is in a fragment, if there is one. -/
def finalizerIsIn (F : Fragment) : Option Block → Bool
  | none => true
  | some b => b.isIn F

/-- True if the handler of a `try` is in a fragment, if there is one. -/
def handlerIsIn (F : Fragment) : Option CatchClause → Bool
  | none => true
  | some (.mk _ _ b) => b.isIn F

/-- True if the cases of a switch are in a fragment. -/
def casesAreIn (F : Fragment) : List SwitchCase → Bool
  | [] => true
  | .mk _ test ss :: rest => optionIsIn F test && (bodyIsIn F ss && casesAreIn F rest)

/-- True if what a `for` loop does first is in a fragment. -/
def startIsIn (F : Fragment) : Option ForStart → Bool
  | none => true
  | some (.varDeclaration _ ds) => declaratorsAreIn F ds
  | some (.expression x) => x.isIn F

/-- True if the target of a `for-in` loop is in a fragment. -/
def ForInTarget.isIn (F : Fragment) : ForInTarget → Bool
  | .variable .. => true
  | .expression x => x.isIn F

/-- True if the initial values of variables are in a fragment. -/
def declaratorsAreIn (F : Fragment) : List Declarator → Bool
  | [] => true
  | .mk _ _ x :: rest => optionIsIn F x && declaratorsAreIn F rest

end

/-- True if a program is in a fragment. -/
def Program.isIn (F : Fragment) (p : Program) : Bool := bodyIsIn F p.body

variable {F : Fragment}

theorem FunctionCode.isIn_eq (code : FunctionCode) : code.isIn F = bodyIsIn F code.body := by
  cases code
  rfl

/-! ## Hoisted functions -/

mutual

theorem Statement.isIn_hoistedFunctions (st : Statement) (h : st.isIn F = true) :
    ∀ code ∈ st.hoistedFunctions, code.isIn F = true := by
  have none : ∀ code ∈ ([] : List FunctionCode), code.isIn F = true := fun _ hcode => nomatch hcode
  cases st with
  | functionDeclaration code =>
    simp only [Statement.isIn, Bool.and_eq_true] at h
    exact List.forall_mem_singleton.2 h.2
  | block b =>
    simp only [Statement.isIn, Bool.and_eq_true] at h
    exact Block.isIn_hoistedFunctions b h.2
  | labeled span label body =>
    simp only [Statement.isIn, Bool.and_eq_true] at h
    exact Statement.isIn_hoistedFunctions body h.2
  | branch span test consequent alternate =>
    simp only [Statement.isIn, Bool.and_eq_true] at h
    have first := Statement.isIn_hoistedFunctions consequent h.2.2.1
    rcases alternate with _ | st <;> rw [Statement.hoistedFunctions]
    · exact List.forall_mem_append.2 ⟨first, none⟩
    · exact List.forall_mem_append.2 ⟨first, Statement.isIn_hoistedFunctions st h.2.2.2⟩
  | switch span x cs =>
    simp only [Statement.isIn, Bool.and_eq_true] at h
    exact casesAreIn_hoistedFunctions cs h.2.2
  | tryCatch span b handler finalizer =>
    simp only [Statement.isIn, Bool.and_eq_true] at h
    obtain ⟨-, hb, hhandler, hfinalizer⟩ := h
    have first := Block.isIn_hoistedFunctions b hb
    rcases handler with _ | ⟨_, _, body⟩ <;> rcases finalizer with _ | f <;>
      rw [Statement.hoistedFunctions]
    · exact List.forall_mem_append.2 ⟨List.forall_mem_append.2 ⟨first, none⟩, none⟩
    · exact List.forall_mem_append.2 ⟨List.forall_mem_append.2 ⟨first, none⟩,
        Block.isIn_hoistedFunctions f hfinalizer⟩
    · exact List.forall_mem_append.2 ⟨List.forall_mem_append.2 ⟨first,
        Block.isIn_hoistedFunctions body hhandler⟩, none⟩
    · exact List.forall_mem_append.2 ⟨List.forall_mem_append.2 ⟨first,
        Block.isIn_hoistedFunctions body hhandler⟩, Block.isIn_hoistedFunctions f hfinalizer⟩
  | _ => exact none

theorem Block.isIn_hoistedFunctions (b : Block) (h : b.isIn F = true) :
    ∀ code ∈ b.hoistedFunctions, code.isIn F = true := by
  cases b with
  | mk span ss => exact bodyIsIn_hoistedFunctions ss h

theorem bodyIsIn_hoistedFunctions (ss : List Statement) (h : bodyIsIn F ss = true) :
    ∀ code ∈ hoistedFunctions ss, code.isIn F = true := by
  cases ss with
  | nil => exact fun _ hcode => nomatch hcode
  | cons st rest =>
    simp only [bodyIsIn, Bool.and_eq_true] at h
    exact List.forall_mem_append.2
      ⟨Statement.isIn_hoistedFunctions st h.1, bodyIsIn_hoistedFunctions rest h.2⟩

theorem casesAreIn_hoistedFunctions (cs : List SwitchCase) (h : casesAreIn F cs = true) :
    ∀ code ∈ casesHoistedFunctions cs, code.isIn F = true := by
  rcases cs with _ | ⟨⟨span, test, ss⟩, rest⟩
  · exact fun _ hcode => nomatch hcode
  · simp only [casesAreIn, Bool.and_eq_true] at h
    exact List.forall_mem_append.2
      ⟨bodyIsIn_hoistedFunctions ss h.2.1, casesAreIn_hoistedFunctions rest h.2.2⟩

end

/-! ## Direct code -/

namespace Fragment

/-- Direct code works with names, operators, functions and calls: it has no members, no literals of
objects and arrays, no receivers, and nothing that creates, deletes, tests or lists by means of
objects. It makes no code from text. -/
def direct : Fragment where
  expression
    | .identifier id => id.name ≠ "Function"
    | .this _ | .array .. | .object .. | .construct .. | .member .. | .index .. => false
    | .unary _ operator _ => operator ≠ .delete
    | .binary _ operator _ _ | .assignment _ (.compound operator) _ _ => !operator.needsObject
    | _ => true
  statement
    | .forInLoop .. => false
    | _ => true

end Fragment

end AbstractScript

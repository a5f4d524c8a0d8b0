import AbstractScript.Syntax.Hoisting

/-!
# Code that keeps names

`delete` applied to a plain name removes a binding, or a property of the global object without
weakening it. Code *keeps names* if it never does so, in the functions inside it included. The
functions hoisted out of such code keep names too (`bodyKeepsNames_hoistedFunctions`).
-/
namespace AbstractScript

/-- True for a plain name. -/
def Expression.isName : Expression → Bool
  | .identifier _ => true
  | _ => false

mutual

/-- True if no name is deleted in an expression. -/
def Expression.keepsNames : Expression → Bool
  | .literal .. => true
  | .identifier _ => true
  | .this _ => true
  | .array _ xs => elementsKeepNames xs
  | .object _ es => entriesKeepNames es
  | .function code => code.keepsNames
  | .unary _ operator x => !(operator = .delete && x.isName) && x.keepsNames
  | .update _ _ _ x => x.keepsNames
  | .binary _ _ x y => x.keepsNames && y.keepsNames
  | .assignment _ _ x y => x.keepsNames && y.keepsNames
  | .logical _ _ x y => x.keepsNames && y.keepsNames
  | .conditional _ test x y => test.keepsNames && x.keepsNames && y.keepsNames
  | .call _ f xs => f.keepsNames && allKeepNames xs
  | .construct _ f xs => f.keepsNames && allKeepNames xs
  | .member _ x _ => x.keepsNames
  | .index _ x key => x.keepsNames && key.keepsNames
  | .sequence _ xs => allKeepNames xs

/-- True if no name is deleted in an expression, if there is one. -/
def optionKeepsNames : Option Expression → Bool
  | none => true
  | some x => x.keepsNames

/-- True if no name is deleted in some expressions. -/
def allKeepNames : List Expression → Bool
  | [] => true
  | x :: rest => x.keepsNames && allKeepNames rest

/-- True if no name is deleted in the elements of an array literal. -/
def elementsKeepNames : List (Option Expression) → Bool
  | [] => true
  | x :: rest => optionKeepsNames x && elementsKeepNames rest

/-- True if no name is deleted in an entry of an object literal. -/
def Entry.keepsNames : Entry → Bool
  | .value _ _ x => x.keepsNames
  | .getter _ _ code => code.keepsNames
  | .setter _ _ code => code.keepsNames

/-- True if no name is deleted in the entries of an object literal. -/
def entriesKeepNames : List Entry → Bool
  | [] => true
  | e :: rest => e.keepsNames && entriesKeepNames rest

/-- True if no name is deleted in a function. -/
def FunctionCode.keepsNames : FunctionCode → Bool
  | .mk _ _ _ _ body => bodyKeepsNames body

/-- True if no name is deleted in a statement. -/
def Statement.keepsNames : Statement → Bool
  | .expression _ x => x.keepsNames
  | .block b => b.keepsNames
  | .empty _ => true
  | .debugger _ => true
  | .returns _ x => optionKeepsNames x
  | .breaks .. => true
  | .continues .. => true
  | .labeled _ _ s => s.keepsNames
  | .branch _ test s t => test.keepsNames && s.keepsNames && alternateKeepsNames t
  | .switch _ x cs => x.keepsNames && casesKeepNames cs
  | .throws _ x => x.keepsNames
  | .tryCatch _ b handler finalizer =>
    b.keepsNames && handlerKeepsNames handler && finalizerKeepsNames finalizer
  | .whileLoop _ test s => test.keepsNames && s.keepsNames
  | .doWhileLoop _ test s => test.keepsNames && s.keepsNames
  | .forLoop _ start test update s =>
    startKeepsNames start && optionKeepsNames test && optionKeepsNames update && s.keepsNames
  | .forInLoop _ target x s => target.keepsNames && x.keepsNames && s.keepsNames
  | .varDeclaration _ ds => declaratorsKeepNames ds
  | .functionDeclaration code => code.keepsNames

/-- True if no name is deleted in the second statement of an `if`, if there is one. -/
def alternateKeepsNames : Option Statement → Bool
  | none => true
  | some s => s.keepsNames

/-- True if no name is deleted in some statements. -/
def bodyKeepsNames : List Statement → Bool
  | [] => true
  | s :: rest => s.keepsNames && bodyKeepsNames rest

/-- True if no name is deleted in a block. -/
def Block.keepsNames : Block → Bool
  | .mk _ ss => bodyKeepsNames ss

/-- True if no name is deleted in the last block of a `try`, if there is one. -/
def finalizerKeepsNames : Option Block → Bool
  | none => true
  | some b => b.keepsNames

/-- True if no name is deleted in the handler of a `try`, if there is one. -/
def handlerKeepsNames : Option CatchClause → Bool
  | none => true
  | some (.mk _ _ b) => b.keepsNames

/-- True if no name is deleted in the cases of a switch. -/
def casesKeepNames : List SwitchCase → Bool
  | [] => true
  | .mk _ test ss :: rest => optionKeepsNames test && bodyKeepsNames ss && casesKeepNames rest

/-- True if no name is deleted in what a `for` loop does first. -/
def startKeepsNames : Option ForStart → Bool
  | none => true
  | some (.varDeclaration _ ds) => declaratorsKeepNames ds
  | some (.expression x) => x.keepsNames

/-- True if no name is deleted in the target of a `for-in` loop. -/
def ForInTarget.keepsNames : ForInTarget → Bool
  | .variable .. => true
  | .expression x => x.keepsNames

/-- True if no name is deleted in the initial values of variables. -/
def declaratorsKeepNames : List Declarator → Bool
  | [] => true
  | .mk _ _ x :: rest => optionKeepsNames x && declaratorsKeepNames rest

end

theorem FunctionCode.keepsNames_eq (code : FunctionCode) :
    code.keepsNames = bodyKeepsNames code.body := by
  cases code
  rfl

/-- True if no name is deleted in a program. -/
def Program.keepsNames (p : Program) : Bool := bodyKeepsNames p.body

/-! ## Hoisted functions -/

mutual

theorem Statement.keepsNames_hoistedFunctions (st : Statement) (h : st.keepsNames = true) :
    ∀ code ∈ st.hoistedFunctions, code.keepsNames = true := by
  have none : ∀ code ∈ ([] : List FunctionCode), code.keepsNames = true :=
    fun _ hcode => nomatch hcode
  cases st with
  | functionDeclaration code => exact List.forall_mem_singleton.2 h
  | block b => exact Block.keepsNames_hoistedFunctions b h
  | labeled span label body => exact Statement.keepsNames_hoistedFunctions body h
  | branch span test consequent alternate =>
    simp only [Statement.keepsNames, Bool.and_eq_true] at h
    have first := Statement.keepsNames_hoistedFunctions consequent h.1.2
    rcases alternate with _ | st <;> rw [Statement.hoistedFunctions]
    · exact List.forall_mem_append.2 ⟨first, none⟩
    · exact List.forall_mem_append.2
        ⟨first, Statement.keepsNames_hoistedFunctions st h.2⟩
  | switch span x cs =>
    simp only [Statement.keepsNames, Bool.and_eq_true] at h
    exact casesKeepNames_hoistedFunctions cs h.2
  | tryCatch span b handler finalizer =>
    simp only [Statement.keepsNames, Bool.and_eq_true] at h
    have first := Block.keepsNames_hoistedFunctions b h.1.1
    rcases handler with _ | ⟨_, _, body⟩ <;> rcases finalizer with _ | f <;>
      rw [Statement.hoistedFunctions]
    · exact List.forall_mem_append.2 ⟨List.forall_mem_append.2 ⟨first, none⟩, none⟩
    · exact List.forall_mem_append.2 ⟨List.forall_mem_append.2 ⟨first, none⟩,
        Block.keepsNames_hoistedFunctions f h.2⟩
    · exact List.forall_mem_append.2 ⟨List.forall_mem_append.2 ⟨first,
        Block.keepsNames_hoistedFunctions body h.1.2⟩, none⟩
    · exact List.forall_mem_append.2 ⟨List.forall_mem_append.2 ⟨first,
        Block.keepsNames_hoistedFunctions body h.1.2⟩,
        Block.keepsNames_hoistedFunctions f h.2⟩
  | _ => exact none

theorem Block.keepsNames_hoistedFunctions (b : Block) (h : b.keepsNames = true) :
    ∀ code ∈ b.hoistedFunctions, code.keepsNames = true := by
  cases b with
  | mk span ss => exact bodyKeepsNames_hoistedFunctions ss h

theorem bodyKeepsNames_hoistedFunctions (ss : List Statement) (h : bodyKeepsNames ss = true) :
    ∀ code ∈ hoistedFunctions ss, code.keepsNames = true := by
  cases ss with
  | nil => exact fun _ hcode => nomatch hcode
  | cons st rest =>
    simp only [bodyKeepsNames, Bool.and_eq_true] at h
    exact List.forall_mem_append.2 ⟨Statement.keepsNames_hoistedFunctions st h.1,
      bodyKeepsNames_hoistedFunctions rest h.2⟩

theorem casesKeepNames_hoistedFunctions (cs : List SwitchCase) (h : casesKeepNames cs = true) :
    ∀ code ∈ casesHoistedFunctions cs, code.keepsNames = true := by
  rcases cs with _ | ⟨⟨span, test, ss⟩, rest⟩
  · exact fun _ hcode => nomatch hcode
  · simp only [casesKeepNames, Bool.and_eq_true] at h
    exact List.forall_mem_append.2 ⟨bodyKeepsNames_hoistedFunctions ss h.1.2,
      casesKeepNames_hoistedFunctions rest h.2⟩

end

end AbstractScript

import AbstractScript.Environment

/-!
# Execution contexts

The program and each call in progress have a context. A context knows how many ambiguous blocks it
is in, and whether a return may already have ended it. The ambiguity level is the total over all
contexts: what runs at a positive level may or may not happen. Leaving a block undoes entering it
(`exitBlock_enterBlock`).
-/
namespace AbstractScript

/-- The context of the program or of a call. -/
structure Context where
  function : Option ObjectId
  lexicalEnv : EnvId
  variableEnv : EnvId
  this : Value
  /-- The number of ambiguous blocks that the context is in. -/
  depth : Nat := 0
  /-- A return in an ambiguous block was reached, so that the result is unknown. -/
  returnUnknown : Bool := false
  deriving Repr

namespace Context

/-- The context of code that runs in one environment. -/
def enter (function : Option ObjectId) (env : EnvId) (this : Value) : Context :=
  { function, lexicalEnv := env, variableEnv := env, this }

/-- What the context contributes to the ambiguity level. -/
def ambiguity (c : Context) : Nat := c.depth + if c.returnUnknown then 1 else 0

end Context

/-- Contexts, the running one first. -/
structure ContextStack where
  contexts : List Context := []
  deriving Repr

namespace ContextStack

/-- The number of contexts. -/
def size (s : ContextStack) : Nat := s.contexts.length

/-- True if there is no context. -/
def isEmpty (s : ContextStack) : Bool := s.contexts.isEmpty

/-- The running context. -/
def running? (s : ContextStack) : Option Context := s.contexts.head?

/-- Adds a running context. -/
def push (s : ContextStack) (c : Context) : ContextStack := ⟨c :: s.contexts⟩

/-- Removes the running context. -/
def pop (s : ContextStack) : ContextStack := ⟨s.contexts.tail⟩

/-- Changes the running context. -/
def modifyRunning (s : ContextStack) (f : Context → Context) : ContextStack :=
  match s.contexts with
  | [] => s
  | c :: rest => ⟨f c :: rest⟩

/-- Makes an environment the one in which the running context looks up names. -/
def setLexicalEnv (s : ContextStack) (e : EnvId) : ContextStack :=
  s.modifyRunning fun c => { c with lexicalEnv := e }

/-- The running context may have returned. -/
def markReturned (s : ContextStack) : ContextStack :=
  s.modifyRunning fun c => { c with returnUnknown := true }

/-- The number under which an ambiguous block of the running context is entered: contexts are
counted from the outermost one. -/
def enterIndex? (s : ContextStack) : Option Nat :=
  match s.contexts with
  | [] => none
  | _ :: rest => some rest.length

/-- Enters an ambiguous block of the running context. -/
def enterBlock (s : ContextStack) : ContextStack :=
  s.modifyRunning fun c => { c with depth := c.depth + 1 }

/-- Leaves an ambiguous block of the context that has `index` contexts below it. -/
def exitBlock (s : ContextStack) (index : Nat) : ContextStack := ⟨exit s.contexts⟩
where
  /-- Leaves a block of the context that `index` contexts follow. -/
  exit : List Context → List Context
    | [] => []
    | c :: rest =>
      if rest.length = index then { c with depth := c.depth - 1 } :: rest else c :: exit rest

/-- The ambiguous depth of the running context. -/
def depth (s : ContextStack) : Nat := (s.running?.map Context.depth).getD 0

/-- True if the running context is in an ambiguous block. -/
def isAmbiguous (s : ContextStack) : Bool := 0 < s.depth

/-- The total ambiguity of all contexts. -/
def level (s : ContextStack) : Nat := s.contexts.foldr (fun c level => c.ambiguity + level) 0

/-- The ambiguous depths of the contexts, the outermost first. -/
def depths (s : ContextStack) : List Nat := (s.contexts.map Context.depth).reverse

/-! ## Laws -/

@[simp] theorem running?_push (s : ContextStack) (c : Context) : (s.push c).running? = some c := rfl

@[simp] theorem pop_push (s : ContextStack) (c : Context) : (s.push c).pop = s := rfl

@[simp] theorem size_push (s : ContextStack) (c : Context) : (s.push c).size = s.size + 1 := rfl

@[simp] theorem level_push (s : ContextStack) (c : Context) :
    (s.push c).level = c.ambiguity + s.level := rfl

@[simp] theorem size_modifyRunning (s : ContextStack) (f : Context → Context) :
    (s.modifyRunning f).size = s.size := by
  unfold modifyRunning
  split <;> simp [size, *]

/-- Another environment for the look-up of names leaves the level alone. -/
@[simp] theorem level_setLexicalEnv (s : ContextStack) (e : EnvId) :
    (s.setLexicalEnv e).level = s.level := by
  rcases s with ⟨_ | ⟨c, rest⟩⟩ <;> rfl

/-- Entering a block of the running context raises the level by one. -/
theorem level_enterBlock {s : ContextStack} (h : s.isEmpty = false) :
    s.enterBlock.level = s.level + 1 := by
  match s, h with
  | ⟨c :: rest⟩, _ =>
    simp [enterBlock, modifyRunning, level, Context.ambiguity]
    omega

/-- Leaving the block that was entered last gives back the contexts. -/
theorem exitBlock_enterBlock {s : ContextStack} {index : Nat} (h : s.enterIndex? = some index) :
    s.enterBlock.exitBlock index = s := by
  match s, h with
  | ⟨c :: rest⟩, h =>
    have top : rest.length = index := by simpa [enterIndex?] using h
    simp [enterBlock, modifyRunning, exitBlock, exitBlock.exit, top]

end ContextStack

end AbstractScript

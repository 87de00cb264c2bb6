import Scroller.Arrays
import Scroller.Lib.Machine

/-!
# Bytecode

The token array of `bc.c`, filled by the first parser and reset behind every command.
-/

namespace Scroller

/-- `BCSZ`. -/
def bcsz : Nat := 1024

/-- `sizeof(BcNode)`: a token and a value as large as a datum. -/
def sizeofBcNode : Nat := 32

/-- The tokens of `Bc` with their memory context; `zero` is a node of zero bytes. -/
structure Bc (T : Type) where
  zero : T
  tokens : Option (DynArray T)
  cont : BumpContext

namespace Bc

variable {T : Type}

/-- `bc_init` in the context that `cmd_init` creates. -/
def init (build : Build) (zero : T) : Bc T :=
  ⟨zero, none, ((BumpContext.create build (sizeofBcNode * bcsz * 2)).getD ⟨0, 0⟩)⟩

/-- The tokens that `y2lex` reads. -/
def toList (bc : Bc T) : List T :=
  match bc.tokens with
  | none => []
  | some a => a.toList

/-- `bc_put`. -/
def put (build : Build) (bc : Bc T) (node : T) : Except Fault (Bc T) := do
  let (cont, tokens) ← DynArray.put build bc.cont (fun _ => bc.zero) sizeofBcNode bc.tokens node
  return { bc with tokens, cont }

/-- The calls of `bc_put` for one command. -/
def puts (build : Build) : Bc T → List T → Except Fault (Bc T)
  | bc, [] => .ok bc
  | bc, node :: nodes => do
      let bc ← bc.put build node
      puts build bc nodes

/-- `cmd_reset` on the bytecode: the context is reset, and `bc_clear` keeps the array. -/
def reset (build : Build) (bc : Bc T) : Bc T :=
  { bc with tokens := bc.tokens.map DynArray.clear, cont := bc.cont.reset build }

end Bc

/-! ### The life of the array

What a session does with the array: the first parser puts tokens, the execution of a command reads and patches
them, and `cmd_reset` ends the command. Beside the bytecode stand the blocks that its context handed out since the
last reset and did not take back; a use of the array is seen with them. -/

/-- What is done with the array: `bc_put`, `bc_prepare` with `y2lex`, which leave these items behind, and
`cmd_reset`. -/
inductive BcOp (T : Type) where
  | put (node : T)
  | use (items : Nat → T)
  | reset

structure BcRun (T : Type) where
  bc : Bc T
  blocks : List Block

/-- A use of the array, with the context and its blocks at that moment. -/
structure BcAccess (T : Type) where
  cont : BumpContext
  blocks : List Block
  array : DynArray T

namespace BcRun

variable {T : Type}

/-- A session behind `cmd_init`. -/
def init (build : Build) (zero : T) : BcRun T := ⟨Bc.init build zero, []⟩

/-- The array that `array_put` raises, which it creates for the first item. -/
def opened (s : BcRun T) : BumpContext × List Block × Option (DynArray T) :=
  match s.bc.tokens with
  | some a => (s.bc.cont, s.blocks, some a)
  | none =>
      match DynArray.create s.bc.cont (fun _ => s.bc.zero) sizeofBcNode arrayDefaultCapacity with
      | (cont, none) => (cont, s.blocks, none)
      | (cont, some a) => (cont, a.block :: s.blocks, some a)

/-- The blocks behind a raise: a block that was reallocated is replaced by the new one. -/
def raisedBlocks (blocks : List Block) (a a' : DynArray T) : List Block :=
  if a'.block = a.block then blocks else a'.block :: blocks.erase a.block

/-- The blocks behind `bc_put`. -/
def putBlocks (s : BcRun T) (bc' : Bc T) : List Block :=
  match s.opened.2.2, bc'.tokens with
  | some a, some a' => raisedBlocks s.opened.2.1 a a'
  | _, _ => s.opened.2.1

def step (build : Build) (s : BcRun T) : BcOp T → Except Fault (BcRun T × Unit)
  | .put node => do
      let bc ← s.bc.put build node
      return (⟨bc, s.putBlocks bc⟩, ())
  | .use items => return ({ s with bc := { s.bc with tokens := s.bc.tokens.map ({ · with items }) } }, ())
  | .reset => return (⟨s.bc.reset build, []⟩, ())

/-- The uses of the array. A put reads the header, with the reallocation of a full array, and writes the item into
the raised array; `bc_clear` writes the header behind the reset of the context. -/
def accesses (build : Build) (s : BcRun T) : BcOp T → List (BcAccess T)
  | .put _ =>
      match s.opened with
      | (_, _, none) => []
      | (cont, blocks, some a) =>
          ⟨cont, blocks, a⟩ ::
            match a.raise build cont sizeofBcNode with
            | .ok (cont, a', true) => [⟨cont, raisedBlocks blocks a a', a'⟩]
            | _ => []
  | .use _ => s.bc.tokens.toList.map fun a => ⟨s.bc.cont, s.blocks, a⟩
  | .reset => s.bc.tokens.toList.map fun a => ⟨s.bc.cont.reset build, [], a⟩

end BcRun

end Scroller

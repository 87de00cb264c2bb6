import Scroller.Arrays
import Scroller.Execute
import Scroller.Lib.Asks

/-!
# Memory for WHERE expressions

While the second parser evaluates an expression it allocates: `cat_data` takes a buffer from the current context,
which is the one for the strings of a command, and the list of `IN` is an array in the context for current values.
Both are bump contexts that `cmd_reset` resets behind the command, so that the rows of a command share them.
-/

namespace Scroller

/-- `sizeof(Datum)`. -/
def sizeofDatum : Nat := 24

namespace Execute

/-! ### Programs -/

/-- What the actions of an expression allocate memory for: the characters of `cat_data`, and the list of `IN`
behind `cmd->current = NULL`. -/
inductive Allocation where
  | cat (d1 d2 : Datum)
  | values (v : Datum) (vs : List Datum)

/-- What an action goes on with. -/
abbrev Allocation.Result : Allocation → Type
  | .cat _ _ => Datum
  | .values _ _ => List Datum

/-- An evaluation that asks for its memory. -/
abbrev Program := Asks Allocation.Result Stop

/-- The action of `CONCAT`. -/
def catProgram (d1 d2 : Datum) : Program Datum := do
  .done (check (dataLexical d1 d2))
  Asks.question (Allocation.cat d1 d2)

/-- The rules of `values`. -/
def valuesProgram (columns : Columns) (v : Datum) (vs : List Datum) : Program (List Datum) := do
  let v ← .done (valueAction columns v)
  let vs ← .done (vs.mapM (valueAction columns))
  Asks.question (Allocation.values v vs)

/-- The evaluation of a tree for the current row: `Tree.eval` with the allocations of its actions. -/
def Tree.program (build : Build) (columns : Columns) : {n : Nonterminal} → Tree n → Program n.Value
  | _, .orUnit e => e.program build columns
  | _, .or l r => do
      let l ← l.program build columns
      let r ← r.program build columns
      return ofBool (l ≠ 0 || r ≠ 0)
  | _, .andUnit e => e.program build columns
  | _, .and l r => do
      let l ← l.program build columns
      let r ← r.program build columns
      return ofBool (l ≠ 0 && r ≠ 0)
  | _, .notUnit e => e.program build columns
  | _, .not e => do
      let e ← e.program build columns
      return ofBool (e = 0)
  | _, .cmpUnit e => do
      let d ← e.program build columns
      let zeroed ← .done (call (datumZeroed build d))
      return ofBool (! zeroed)
  | _, .cmp op l r => do
      let l ← l.program build columns
      let r ← r.program build columns
      .done (cmpAction build op l r)
  | _, .like l r => do
      let l ← l.program build columns
      let r ← r.program build columns
      .done (likeAction build l r)
  | _, .isIn l v vs => do
      let l ← l.program build columns
      let vs ← valuesProgram columns v vs
      .done (inAction build l vs)
  | _, .between x a b => do
      let x ← x.program build columns
      let a ← a.program build columns
      let b ← b.program build columns
      .done (betweenAction build x a b)
  | _, .notLike l r => do
      let l ← l.program build columns
      let r ← r.program build columns
      .done (notLikeAction build l r)
  | _, .notIn l v vs => do
      let l ← l.program build columns
      let vs ← valuesProgram columns v vs
      .done (notInAction build l vs)
  | _, .notBetween x a b => do
      let x ← x.program build columns
      let a ← a.program build columns
      let b ← b.program build columns
      .done (notBetweenAction build x a b)
  | _, .additiveUnit e => e.program build columns
  | _, .additive .concat l r => do
      let l ← l.program build columns
      let r ← r.program build columns
      catProgram l r
  | _, .additive op l r => do
      let l ← l.program build columns
      let r ← r.program build columns
      .done (additiveAction build op l r)
  | _, .multiplicativeUnit e => e.program build columns
  | _, .multiplicative op l r => do
      let l ← l.program build columns
      let r ← r.program build columns
      .done (multiplicativeAction build op l r)
  | _, .value v => .done (valueAction columns v)
  | _, .paren e => do
      let e ← e.program build columns
      return makeBigint e

/-- The expression for one row of a command after the other. -/
def rowsProgram (build : Build) (e : Tree .or) : List Columns → Program Unit
  | [] => return ()
  | columns :: rows => do
      let _ ← e.program build columns
      rowsProgram build e rows

/-! ### Memory -/

/-- The contexts `str_cont` and `current_cont` of a command. -/
structure WhereMemory where
  str : BumpContext
  current : BumpContext

/-- The two contexts that `cmd_init` creates. -/
def WhereMemory.init (build : Build) (pagesz : Nat) : Option WhereMemory := do
  let str ← BumpContext.create build (pagesz * 256 * 256)
  let current ← BumpContext.create build (pagesz * 256 * 256)
  return ⟨str, current⟩

/-- `cat_data` of two lexical data: `memcpy` goes to what `salloc` returns. -/
def WhereMemory.catData (m : WhereMemory) (d1 d2 : Datum) : Except Stop Datum × WhereMemory :=
  let totalsz := d1.character.length + d2.character.length
  match m.str.alloc totalsz with
  | (str, none) =>
      (if totalsz = 0 then .ok (makeChar []) else .error (.fault .nullPointer), { m with str })
  | (str, some _) => (.ok (makeChar (d1.character ++ d2.character)), { m with str })

/-- The actions of `values`: a `cmd_current_put` for each of them. -/
def putValues (build : Build) (items : Nat → Datum) :
    BumpContext → Option (DynArray Datum) → List Datum → Except Fault (BumpContext × Option (DynArray Datum))
  | context, d, [] => .ok (context, d)
  | context, d, v :: vs => do
      let (context, d) ← DynArray.put build context items sizeofDatum d v
      putValues build items context d vs

/-- The list that the action of `IN` loops over; `array_size` of `NULL` is 0. -/
def valuesOf : Option (DynArray Datum) → List Datum
  | none => []
  | some d => d.toList

/-- How a command gets its memory, with the given data in memory that is not initialized. -/
def WhereMemory.allocate (build : Build) (items : Nat → Datum) : Asks.Environment Allocation.Result Stop WhereMemory
  | m, .cat d1 d2 => m.catData d1 d2
  | m, .values v vs =>
      match putValues build items m.current none (v :: vs) with
      | .error fault => (.error (.fault fault), m)
      | .ok (current, d) => (.ok (valuesOf d), { m with current })

end Execute

end Scroller

import Scroller.RowCommand

/-!
# The commands of the query grammar

The rule `cmd` of `hquery.y`, with the tokens that a command reads and the tokens that its actions put into the
bytecode. A session without a catalog leaves tokens of `CREATE SCHEMA` and `CREATE TABLE` out.
-/

namespace Scroller.Hquery

/-- The rules of `type`. The word of `character` makes no difference. -/
inductive ColumnType where
  | smallint
  | integer
  | bigint
  | character (size : Int64)
  | char (size : Int64)
deriving DecidableEq, Repr

namespace ColumnType

def tokens : ColumnType → List Token
  | .smallint => [.smallint]
  | .integer => [.integer]
  | .bigint => [.bigint]
  | .character size => [.character, .lparen, .vinteger size, .rparen]
  | .char size => [.char, .lparen, .vinteger size, .rparen]

def size : ColumnType → UInt64
  | .smallint | .integer | .bigint => 0
  | .character size | .char size => size.toUInt64

def type : ColumnType → DatumType
  | .smallint => .smallint
  | .integer => .integer
  | .bigint => .bigint
  | .character _ | .char _ => .char

def emitted (t : ColumnType) : List BcNode := [.size t.size, .type t.type]

end ColumnType

/-- The rule of `decl`. -/
structure ColumnDecl where
  name : List UInt8
  type : ColumnType
deriving DecidableEq, Repr

namespace ColumnDecl

def tokens (decl : ColumnDecl) : List Token := .id decl.name :: decl.type.tokens

def emitted (decl : ColumnDecl) : List BcNode := decl.type.emitted ++ [.string decl.name]

/-- The column that the second parser reads. -/
def decl (decl : ColumnDecl) : Decl := ⟨decl.name, decl.type.type, decl.type.size⟩

end ColumnDecl

/-- The rules of `cmd`. -/
inductive Cmd where
  | createUser (name : List UInt8)
  | createCatalog (name : List UInt8)
  | createSchema (name : List UInt8)
  | createTable (schema table : List UInt8) (decl : ColumnDecl) (decls : List ColumnDecl)
  | startTransaction
  | commit
  | rollback
  | insert (schema table name : List UInt8) (names : List (List UInt8)) (value : Value) (values : List Value)
  | row (cmd : Execute.RowCmd) (clause : Option (Tree .or))

/-- A list with commas. -/
def commaList {α : Type} (tokens : α → List Token) (x : α) (xs : List α) : List Token :=
  tokens x ++ xs.flatMap fun x => .comma :: tokens x

/-- `ID '.' ID`. -/
def tableName (schema table : List UInt8) : List Token := [.id schema, .dot, .id table]

/-- `mb_where`. -/
def mbWhereTokens : Option (Tree .or) → List Token
  | none => []
  | some e => .wher :: e.tokens

namespace Cmd

/-- The tokens of a command in a query. -/
def tokens : Cmd → List Token
  | .createUser name => [.create, .user, .id name]
  | .createCatalog name => [.create, .catalog, .id name]
  | .createSchema name => [.create, .schema, .id name]
  | .createTable schema table decl decls =>
      [.create, .table] ++ tableName schema table ++ [.lparen] ++ commaList ColumnDecl.tokens decl decls
        ++ [.rparen]
  | .startTransaction => [.start, .transaction]
  | .commit => [.commit]
  | .rollback => [.rollback]
  | .insert schema table name names value values =>
      [.insert, .into] ++ tableName schema table ++ [.lparen] ++ commaList (fun name => [.id name]) name names
        ++ [.rparen, .values, .lparen] ++ commaList (fun value => [value.token]) value values ++ [.rparen]
  | .row (.delete schema table) clause =>
      [.delete, .fro] ++ tableName schema table ++ mbWhereTokens clause
  | .row (.select schema table name names) clause =>
      [.select] ++ commaList (fun name => [.id name]) name names ++ [.fro] ++ tableName schema table
        ++ mbWhereTokens clause

/-- The tokens that the actions of a command put; `catalog` says that the session has a catalog. -/
def emitted (catalog : Bool) : Cmd → List BcNode
  | .createUser name => [.create, .user, .string name]
  | .createCatalog name => [.create, .catalog, .string name]
  | .createSchema name => if catalog then [.create, .schema, .string name] else []
  | .createTable schema table decl decls =>
      if catalog then
        [.create, .table, .string schema, .string table, .arrayBegin]
          ++ (decl :: decls).flatMap ColumnDecl.emitted ++ [.arrayEnd]
      else (decl :: decls).flatMap ColumnDecl.emitted
  | .startTransaction => [.startTran]
  | .commit => [.commit]
  | .rollback => [.rollback]
  | .insert schema table name names value values =>
      [.insert, .string schema, .string table, .arrayBegin] ++ (name :: names).map .string
        ++ [.arrayEnd, .arrayBegin] ++ (value :: values).map (fun value => .datum value.datum) ++ [.arrayEnd]
  | .row cmd clause => cmd.statement clause

end Cmd

end Scroller.Hquery

import Scroller.Hquery
import Scroller.Lib.Regex
import Scroller.Scrc

/-!
# The scanner of queries

`hquery.l` in the start condition `query`, which no rule of it leaves: the rules in their order, with what their
actions return. A string is what stands in front of the terminator; `memory` is what `salloc` finds at the
address it returns.
-/

namespace Scroller.Hquery

/-- A rule: its pattern and what its action returns for `yytext`, if it returns. -/
structure Rule where
  pattern : Regex UInt8
  action : (Nat → UInt8) → List UInt8 → Except Fault (Option Token)

/-! ### Patterns -/

def NUM (c : UInt8) : Bool := 48 ≤ c && c ≤ 57

def ALPHA (c : UInt8) : Bool := (97 ≤ c && c ≤ 122) || (65 ≤ c && c ≤ 90) || c = 95

def ALNUM (c : UInt8) : Bool := NUM c || ALPHA c

def SPACE (c : UInt8) : Bool := c = 32 || c = 9 || c = 13

/-- `.`. -/
def anyChar (c : UInt8) : Bool := c ≠ 10

def lower (c : UInt8) : UInt8 := if 65 ≤ c ∧ c ≤ 90 then c + 32 else c

/-- A pattern of single characters, which do not distinguish cases. -/
def word : List UInt8 → Regex UInt8
  | [] => .eps
  | k :: ks => .seq (.cls fun c => lower c = k) (word ks)

def plus (p : UInt8 → Bool) : Regex UInt8 := .seq (.cls p) (.star (.cls p))

def INTEGER : Regex UInt8 :=
  .seq (.alt (.cls (· = 45)) .eps)
    (.alt (.cls (· = 48)) (.seq (.cls fun c => 49 ≤ c && c ≤ 57) (.star (.cls NUM))))

def STRING : Regex UInt8 := .seq (.cls ALPHA) (.star (.cls ALNUM))

/-- `DQUOTED` and `QUOTED`: the quote `q`, pairs of a backslash and a character or characters other than
the quote, and the quote. -/
def quoted (q : UInt8) : Regex UInt8 :=
  .seq (.cls (· = q))
    (.seq (.star (.alt (.seq (.cls (· = 92)) (.cls anyChar)) (.cls (· ≠ q)))) (.cls (· = q)))

def DQUOTED : Regex UInt8 := quoted 34

def QUOTED : Regex UInt8 := quoted 39

/-! ### Actions -/

/-- A string up to its terminator. -/
def terminated (s : List UInt8) : List UInt8 := s.takeWhile (· ≠ 0)

/-- The loop of `str_unescape` behind the first quote. A character that is not written keeps what the memory
had. -/
def strUnescapeLoop (memory : Nat → UInt8) (q : UInt8) : Nat → List UInt8 → Except Fault (List UInt8)
  | _, [] => return []
  | d, c :: s =>
      if c = 0 ∨ c = q then return []
      else if c = 92 then
        match s with
        -- behind the backslash stands the terminator, and the loop goes on behind it
        | [] => .error .outOfBounds
        | e :: s => do
            let rest ← strUnescapeLoop memory q (d + 1) s
            if e = q then return q :: rest
            else if e = 10 ∨ e = 9 ∨ e = 92 then return e :: rest
            else return memory d :: rest
      else do
        let rest ← strUnescapeLoop memory q (d + 1) s
        return c :: rest

/-- `str_unescape`. -/
def strUnescape (memory : Nat → UInt8) (s : List UInt8) (q : UInt8) : Except Fault (List UInt8) := do
  let str ← strUnescapeLoop memory q 0 s.tail
  return terminated str

/-- `atoll`, which has no result for a number that does not fit. -/
def atoll (s : List UInt8) : Except Fault Int64 :=
  match strtol s with
  | some (value, _) => return Int64.ofInt value
  | none => .error .signedOverflow

/-! ### Rules -/

def eat (pattern : Regex UInt8) : Rule := ⟨pattern, fun _ _ => return none⟩

/-- The rules for words and operators. -/
def words : List (List UInt8 × Token) :=
  [(ascii "create", .create), (ascii "user", .user), (ascii "catalog", .catalog),
    (ascii "schema", .schema), (ascii "table", .table), (ascii "insert", .insert),
    (ascii "into", .into), (ascii "values", .values), (ascii "delete", .delete),
    (ascii "select", .select), (ascii "from", .fro), (ascii "where", .wher),
    (ascii "start", .start), (ascii "transaction", .transaction), (ascii "commit", .commit),
    (ascii "rollback", .rollback), (ascii "smallint", .smallint), (ascii "integer", .integer),
    (ascii "int", .integer), (ascii "bigint", .bigint), (ascii "character", .character),
    (ascii "char", .char), (ascii "varchar", .varchar), (ascii "varying", .varying),
    (ascii "or", .or), (ascii "and", .and), (ascii "not", .not), (ascii "like", .like),
    (ascii "in", .isIn), (ascii "between", .between), (ascii "||", .additive .concat),
    (ascii "<>", .cmp .ne), (ascii "!=", .cmp .ne), (ascii "<=", .cmp .le), (ascii ">=", .cmp .ge),
    (ascii "<", .cmp .lt), (ascii ">", .cmp .gt), (ascii "(", .lparen), (ascii ")", .rparen),
    (ascii ",", .comma), (ascii ".", .dot), (ascii "=", .cmp .eq), (ascii "+", .additive .add),
    (ascii "-", .additive .sub), (ascii "*", .multiplicative .mul),
    (ascii "/", .multiplicative .div), (ascii "%", .multiplicative .mod)]

def wordRule (w : List UInt8 × Token) : Rule := ⟨word w.1, fun _ _ => return some w.2⟩

/-- The rules in front of the words. -/
def firstRules : List Rule :=
  [eat (plus SPACE), eat (.seq (word (ascii "--")) (.star (.cls anyChar)))]

/-- The rules behind the words. -/
def lastRules : List Rule :=
  [⟨INTEGER, fun _ yytext => do
      let integer ← atoll yytext
      return some (.vinteger integer)⟩,
    ⟨STRING, fun _ yytext => return some (.id yytext)⟩,
    ⟨DQUOTED, fun memory yytext => do
      let str ← strUnescape memory yytext 34
      return some (.id str)⟩,
    ⟨QUOTED, fun memory yytext => do
      let str ← strUnescape memory yytext 39
      return some (.string str)⟩,
    wordRule (ascii ";", .semicolon), wordRule (ascii "$$", .newline), eat (.cls (· = 10)),
    eat (.cls anyChar)]

def rules : List Rule := firstRules ++ words.map wordRule ++ lastRules

def patterns : List (Regex UInt8) := rules.map Rule.pattern

/-- `y1lex` up to the end of the input. -/
def scan (memory : Nat → Nat → UInt8) : Nat → List UInt8 → Except Fault (List Token)
  | 0, _ => .error .diverges
  | fuel + 1, s =>
      match Regex.longest patterns s with
      | none => return []
      | some (i, n) =>
          match rules[i]? with
          | none => .error .outOfBounds
          | some rule => do
              let token ← rule.action (memory s.length) (s.take n)
              let tokens ← scan memory fuel (s.drop n)
              return token.toList ++ tokens

/-- The tokens of a text. -/
def tokenize (memory : Nat → Nat → UInt8) (s : List UInt8) : Except Fault (List Token) :=
  scan memory (s.length + 1) s

end Scroller.Hquery

import Scroller.Hquery
import Scroller.Proof.ExprParsing

/-!
# Replaying a parse

The bytecode of an expression, repeated for every row, has exactly one derivation in the second grammar: a
line for every row, each with the tree of the query. That there is no other one follows from the parser, which
builds every tree from its tokens.
-/

namespace Scroller.Execute

/-! ### Unique derivations -/

/-- A lexer for a list of tokens. -/
def listLexer : Lexer (List BcNode) Stop where
  lex
    | [] => .ok ([], none)
    | token :: tokens => .ok (tokens, some token)
  syntaxError := .syntaxError
  diverges := .fault .diverges

theorem lexes_list (xs r : List BcNode) :
    Lexes listLexer (xs ++ r) (xs.map some ++ [r.head?]) r.tail := by
  induction xs with
  | nil =>
      cases r with
      | nil => exact ⟨[], rfl, rfl⟩
      | cons y r => exact ⟨r, rfl, rfl⟩
  | cons x xs ih => exact ⟨xs ++ r, rfl, ih⟩

/-- The tokens of an expression and what is behind them determine its tree. -/
theorem tokens_unique {t t' : Tree .or} {r r' : List BcNode} (h : t.tokens ++ r = t'.tokens ++ r')
    (hr : 6 ≤ tokenLevel r.head?) (hr' : 6 ≤ tokenLevel r'.head?) : t = t' ∧ r = r' := by
  have hs : Shows listLexer ⟨t.tokens ++ r, none⟩ (t.stream ++ [r.head?]) r.tail :=
    Shows.shifted _ (lexes_list t.tokens r)
  have hs' : Shows listLexer ⟨t.tokens ++ r, none⟩ (t'.stream ++ [r'.head?]) r'.tail := by
    rw [h]
    exact Shows.shifted _ (lexes_list t'.tokens r')
  obtain ⟨σ, -, hparse⟩ := (parses listLexer treeActions t).or (t.cost + t'.cost + 1) _ _ _
    (by omega) hr hs
  obtain ⟨σ', -, hparse'⟩ := (parses listLexer treeActions t').or (t.cost + t'.cost + 1) _ _ _
    (by omega) hr' hs'
  rw [hparse, fold_treeActions, fold_treeActions] at hparse'
  obtain ⟨-, rfl⟩ := Prod.mk.inj (Except.ok.inj hparse')
  exact ⟨rfl, List.append_cancel_left h⟩

/-- The first token of an expression is one that a list of operands does not go on with. -/
theorem tokens_cons (t : Tree .or) :
    ∃ token tokens, t.tokens = token :: tokens ∧ 6 ≤ tokenLevel (some token) := by
  obtain ⟨x, xs, hstream, hlevel, -⟩ := t.stream_cons
  cases htokens : t.tokens with
  | nil => simp [Tree.stream, htokens] at hstream
  | cons token tokens =>
      simp only [Tree.stream, htokens, List.map_cons, List.cons.injEq] at hstream
      exact ⟨token, tokens, rfl, by rw [hstream.1, hlevel]⟩

theorem level_flatMap_tokens (ts : List (Tree .or)) :
    6 ≤ tokenLevel (ts.flatMap Tree.tokens).head? := by
  cases ts with
  | nil => exact Nat.le_refl _
  | cons t ts =>
      obtain ⟨token, tokens, htokens, hlevel⟩ := tokens_cons t
      rw [List.flatMap_cons, htokens]
      exact hlevel

theorem lines_unique {ts ts' : List (Tree .or)}
    (h : ts.flatMap Tree.tokens = ts'.flatMap Tree.tokens) : ts = ts' := by
  induction ts generalizing ts' with
  | nil =>
      cases ts' with
      | nil => rfl
      | cons t' ts' =>
          obtain ⟨token, tokens, htokens, -⟩ := tokens_cons t'
          simp [List.flatMap_cons, htokens] at h
  | cons t ts ih =>
      cases ts' with
      | nil =>
          obtain ⟨token, tokens, htokens, -⟩ := tokens_cons t
          simp [List.flatMap_cons, htokens] at h
      | cons t' ts' =>
          rw [List.flatMap_cons, List.flatMap_cons] at h
          obtain ⟨rfl, hrest⟩ :=
            tokens_unique h (level_flatMap_tokens ts) (level_flatMap_tokens ts')
          rw [ih hrest]

namespace Lines

theorem tokens_eq (ls : Lines) : ls.tokens = ls.trees.flatMap Tree.tokens := by
  induction ls with
  | line e => simp [tokens, trees]
  | more ls e ih => simp [tokens, trees, ih]

theorem trees_ne_nil (ls : Lines) : ls.trees ≠ [] := by
  cases ls with
  | line e => exact List.cons_ne_nil e []
  | more ls e => exact List.append_ne_nil_of_right_ne_nil _ (List.cons_ne_nil e [])

/-- The derivation of a list of lines is determined by their trees. -/
theorem trees_injective {ls ls' : Lines} (h : ls.trees = ls'.trees) : ls = ls' := by
  induction ls generalizing ls' with
  | line e =>
      cases ls' with
      | line e' => rw [List.cons.inj h |>.1]
      | more ls' e' =>
          obtain ⟨hls, -⟩ := List.append_inj' (show [] ++ [e] = ls'.trees ++ [e'] from h) rfl
          exact absurd hls.symm ls'.trees_ne_nil
  | more ls e ih =>
      cases ls' with
      | line e' =>
          obtain ⟨hls, -⟩ := List.append_inj' (show ls.trees ++ [e] = [] ++ [e'] from h) rfl
          exact absurd hls ls.trees_ne_nil
      | more ls' e' =>
          obtain ⟨hls, he⟩ := List.append_inj' (show ls.trees ++ [e] = ls'.trees ++ [e'] from h) rfl
          rw [ih hls, List.cons.inj he |>.1]

theorem tokens_injective {ls ls' : Lines} (h : ls.tokens = ls'.tokens) : ls = ls' := by
  rw [tokens_eq, tokens_eq] at h
  exact trees_injective (lines_unique h)

/-- A line for every one of `n + 1` rows, all with the same tree. -/
def repeated (t : Tree .or) : Nat → Lines
  | 0 => .line t
  | n + 1 => .more (repeated t n) t

theorem repeated_trees (t : Tree .or) (n : Nat) :
    (repeated t n).trees = List.replicate (n + 1) t := by
  induction n with
  | zero => rfl
  | succ n ih => rw [repeated, trees, ih, ← List.replicate_succ']

theorem repeated_tokens (t : Tree .or) (n : Nat) :
    (repeated t n).tokens = (List.replicate (n + 1) t.tokens).flatten := by
  rw [tokens_eq, repeated_trees, List.flatMap, List.map_replicate]

end Lines

end Scroller.Execute

namespace Scroller.Hquery.Tree

/-- What the actions put is what the second parser reads of the translation. -/
theorem translate_tokens {n : Nonterminal} (t : Tree n) : t.translate.tokens = t.emitted := by
  induction t with
  | orUnit e ih | andUnit e ih | notUnit e ih | cmpUnit e ih | additiveUnit e ih
  | multiplicativeUnit e ih => exact ih
  | or l r ihl ihr | and l r ihl ihr | cmp op l r ihl ihr | like l r ihl ihr | notLike l r ihl ihr
  | additive op l r ihl ihr | multiplicative op l r ihl ihr =>
      rw [translate, Execute.Tree.tokens, emitted, ihl, ihr]
  | isIn l v vs ih | notIn l v vs ih =>
      rw [translate, Execute.Tree.tokens, emitted, ih, List.map_map]
      rfl
  | between x a b ihx iha ihb | notBetween x a b ihx iha ihb =>
      rw [translate, Execute.Tree.tokens, emitted, ihx, iha, ihb]
  | not e ih | paren e ih => rw [translate, Execute.Tree.tokens, emitted, ih]
  | value v => rfl

theorem translate_ast {n : Nonterminal} (t : Tree n) : t.translate.ast = t.ast := by
  induction t with
  | orUnit e ih | andUnit e ih | notUnit e ih | cmpUnit e ih | additiveUnit e ih
  | multiplicativeUnit e ih => exact ih
  | or l r ihl ihr | and l r ihl ihr | cmp op l r ihl ihr | like l r ihl ihr | notLike l r ihl ihr
  | additive op l r ihl ihr | multiplicative op l r ihl ihr =>
      rw [translate, Execute.Tree.ast, ast, ihl, ihr]
  | isIn l v vs ih | notIn l v vs ih => rw [translate, Execute.Tree.ast, ast, ih]
  | between x a b ihx iha ihb | notBetween x a b ihx iha ihb =>
      rw [translate, Execute.Tree.ast, ast, ihx, iha, ihb]
  | not e ih | paren e ih => rw [translate, Execute.Tree.ast, ast, ih]
  | value v => rfl

end Scroller.Hquery.Tree

namespace Scroller.Execute

/-- The bytecode of an expression, once for every row, is read as a line for every row with the expression
that was parsed, and in no other way. -/
theorem replay (t : Hquery.Tree .or) (n : Nat) :
    ∃ ls : Lines, ls.tokens = (List.replicate (n + 1) t.emitted).flatten ∧
      ls.trees.map Tree.ast = List.replicate (n + 1) t.ast ∧
      ∀ ls' : Lines, ls'.tokens = (List.replicate (n + 1) t.emitted).flatten → ls' = ls := by
  have htokens : (Lines.repeated t.translate n).tokens
      = (List.replicate (n + 1) t.emitted).flatten := by
    rw [Lines.repeated_tokens, t.translate_tokens]
  refine ⟨.repeated t.translate n, htokens, ?_, ?_⟩
  · rw [Lines.repeated_trees, List.map_replicate, t.translate_ast]
  · intro ls' hls'
    exact Lines.tokens_injective (hls'.trans htokens.symm)

end Scroller.Execute

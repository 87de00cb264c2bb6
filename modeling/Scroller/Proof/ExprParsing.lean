import Scroller.ExprParser

/-!
# The parser on the tokens of a tree

On the tokens of a tree and one token behind them that does not go on with it, the parser runs the actions of
the tree from left to right and has read just that one token ahead. An operator of the same rule may stand
behind the tree as well; then the parser is in the loop that goes on with it.
-/

namespace Scroller.Execute

variable {L E : Type} {V : Nonterminal → Type} {W : Type}

/-- The values of the nodes of a tree, computed from left to right. -/
def Tree.fold (actions : Actions E V W) : {n : Nonterminal} → Tree n → Except E (V n)
  | _, .orUnit e => do
      let e ← e.fold actions
      actions.reduce (.orUnit e)
  | _, .or l r => do
      let l ← l.fold actions
      let r ← r.fold actions
      actions.reduce (.or l r)
  | _, .andUnit e => do
      let e ← e.fold actions
      actions.reduce (.andUnit e)
  | _, .and l r => do
      let l ← l.fold actions
      let r ← r.fold actions
      actions.reduce (.and l r)
  | _, .notUnit e => do
      let e ← e.fold actions
      actions.reduce (.notUnit e)
  | _, .not e => do
      let e ← e.fold actions
      actions.reduce (.not e)
  | _, .cmpUnit e => do
      let e ← e.fold actions
      actions.reduce (.cmpUnit e)
  | _, .cmp op l r => do
      let l ← l.fold actions
      let r ← r.fold actions
      actions.reduce (.cmp op l r)
  | _, .like l r => do
      let l ← l.fold actions
      let r ← r.fold actions
      actions.reduce (.like l r)
  | _, .isIn l v vs => do
      let l ← l.fold actions
      let v ← actions.value v
      let vs ← vs.mapM actions.value
      actions.reduce (.isIn l v vs)
  | _, .between x a b => do
      let x ← x.fold actions
      let a ← a.fold actions
      let b ← b.fold actions
      actions.reduce (.between x a b)
  | _, .notLike l r => do
      let l ← l.fold actions
      let r ← r.fold actions
      actions.reduce (.notLike l r)
  | _, .notIn l v vs => do
      let l ← l.fold actions
      let v ← actions.value v
      let vs ← vs.mapM actions.value
      actions.reduce (.notIn l v vs)
  | _, .notBetween x a b => do
      let x ← x.fold actions
      let a ← a.fold actions
      let b ← b.fold actions
      actions.reduce (.notBetween x a b)
  | _, .additiveUnit e => do
      let e ← e.fold actions
      actions.reduce (.additiveUnit e)
  | _, .additive op l r => do
      let l ← l.fold actions
      let r ← r.fold actions
      actions.reduce (.additive op l r)
  | _, .multiplicativeUnit e => do
      let e ← e.fold actions
      actions.reduce (.multiplicativeUnit e)
  | _, .multiplicative op l r => do
      let l ← l.fold actions
      let r ← r.fold actions
      actions.reduce (.multiplicative op l r)
  | _, .value v => do
      let v ← actions.value v
      actions.reduce (.value v)
  | _, .paren e => do
      let e ← e.fold actions
      actions.reduce (.paren e)

/-- The actions of `execute.y` compute the value of a tree. -/
theorem fold_evalActions (build : Build) (columns : Columns) {n : Nonterminal} (t : Tree n) :
    t.fold (evalActions build columns) = t.eval build columns := by
  induction t with
  | orUnit e ih | andUnit e ih | notUnit e ih | additiveUnit e ih | multiplicativeUnit e ih =>
      rw [Tree.fold, Tree.eval, ih]
      exact bind_pure _
  | or l r ihl ihr | and l r ihl ihr | cmp op l r ihl ihr | like l r ihl ihr | notLike l r ihl ihr
  | additive op l r ihl ihr | multiplicative op l r ihl ihr =>
      rw [Tree.fold, Tree.eval, ihl, ihr]
      rfl
  | not e ih | cmpUnit e ih | paren e ih =>
      rw [Tree.fold, Tree.eval, ih]
      rfl
  | isIn l v vs ih | notIn l v vs ih =>
      rw [Tree.fold, Tree.eval, ih, List.mapM_cons]
      simp only [bind_assoc, pure_bind]
      rfl
  | between x a b ihx iha ihb | notBetween x a b ihx iha ihb =>
      rw [Tree.fold, Tree.eval, ihx, iha, ihb]
      rfl
  | value v =>
      rw [Tree.fold, Tree.eval]
      exact bind_pure _

theorem mapM_ok (vs : List Datum) : vs.mapM (fun v => (.ok v : Except E Datum)) = .ok vs := by
  induction vs with
  | nil => rfl
  | cons v vs ih =>
      rw [List.mapM_cons, ih]
      rfl

theorem fold_treeActions {n : Nonterminal} (t : Tree n) :
    t.fold (treeActions : Actions E Tree Datum) = .ok t := by
  induction t with
  | orUnit e ih | andUnit e ih | notUnit e ih | additiveUnit e ih | multiplicativeUnit e ih
  | not e ih | cmpUnit e ih | paren e ih =>
      rw [Tree.fold, ih]
      rfl
  | or l r ihl ihr | and l r ihl ihr | cmp op l r ihl ihr | like l r ihl ihr | notLike l r ihl ihr
  | additive op l r ihl ihr | multiplicative op l r ihl ihr =>
      rw [Tree.fold, ihl, ihr]
      rfl
  | isIn l v vs ih | notIn l v vs ih =>
      rw [Tree.fold, ih]
      dsimp only [treeActions, bind, Except.bind]
      rw [mapM_ok]
  | between x a b ihx iha ihb | notBetween x a b ihx iha ihb =>
      rw [Tree.fold, ihx, iha, ihb]
      rfl
  | value v => rfl

/-! ### Tokens ahead -/

/-- The lexer delivers these tokens; `none` is the end. -/
def Lexes (lexer : Lexer L E) : L → List (Option BcNode) → L → Prop
  | l, [], l' => l = l'
  | l, x :: xs, l' => ∃ l₁, lexer.lex l = .ok (l₁, x) ∧ Lexes lexer l₁ xs l'

/-- The parser sees these tokens, the first of which it may have read. -/
def Shows (lexer : Lexer L E) (s : Look L) (xs : List (Option BcNode)) (l' : L) : Prop :=
  match s.yychar with
  | none => Lexes lexer s.lexer xs l'
  | some y => ∃ rest, xs = y :: rest ∧ Lexes lexer s.lexer rest l'

section Tokens

variable {lexer : Lexer L E} {l l' : L} {s : Look L} {x : Option BcNode}
  {xs ys : List (Option BcNode)}

theorem Lexes.append_iff :
    Lexes lexer l (xs ++ ys) l' ↔ ∃ l₁, Lexes lexer l xs l₁ ∧ Lexes lexer l₁ ys l' := by
  induction xs generalizing l with
  | nil =>
      constructor
      · intro h
        exact ⟨l, rfl, h⟩
      · rintro ⟨l₁, rfl, h⟩
        exact h
  | cons x xs ih =>
      constructor
      · rintro ⟨l₁, hlex, h⟩
        obtain ⟨l₂, hxs, hys⟩ := ih.mp h
        exact ⟨l₂, ⟨l₁, hlex, hxs⟩, hys⟩
      · rintro ⟨l₂, ⟨l₁, hlex, hxs⟩, hys⟩
        exact ⟨l₁, hlex, ih.mpr ⟨l₂, hxs, hys⟩⟩

namespace Shows

theorem shifted (l : L) (h : Lexes lexer l xs l') : Shows lexer ⟨l, none⟩ xs l' := h

theorem ahead (l : L) (h : Lexes lexer l xs l') : Shows lexer ⟨l, some x⟩ (x :: xs) l' :=
  ⟨xs, rfl, h⟩

theorem append (h : Shows lexer s (x :: xs ++ ys) l') :
    ∃ l₁, Shows lexer s (x :: xs) l₁ ∧ Lexes lexer l₁ ys l' := by
  obtain ⟨l, yychar⟩ := s
  cases yychar with
  | none => exact Lexes.append_iff.mp h
  | some y =>
      obtain ⟨rest, heq, hlex⟩ := h
      rw [List.cons_append] at heq
      obtain ⟨rfl, rfl⟩ := List.cons.inj heq
      obtain ⟨l₁, hxs, hys⟩ := Lexes.append_iff.mp hlex
      exact ⟨l₁, ⟨xs, rfl, hxs⟩, hys⟩

theorem peek (h : Shows lexer s (x :: xs) l') :
    ∃ l₁, s.peek lexer = .ok (⟨l₁, some x⟩, x) ∧ Lexes lexer l₁ xs l' := by
  obtain ⟨l, yychar⟩ := s
  cases yychar with
  | none =>
      obtain ⟨l₁, hlex, hxs⟩ := h
      refine ⟨l₁, ?_, hxs⟩
      unfold Look.peek
      dsimp only
      rw [hlex]
      rfl
  | some y =>
      obtain ⟨rest, heq, hlex⟩ := h
      obtain ⟨rfl, rfl⟩ := List.cons.inj heq
      exact ⟨l, rfl, hlex⟩

theorem more (h : Shows lexer s [x] l) (hxs : Lexes lexer l xs l') :
    Shows lexer s (x :: xs) l' := by
  obtain ⟨l₀, yychar⟩ := s
  cases yychar with
  | none =>
      obtain ⟨l₁, hlex, rfl⟩ := h
      exact ⟨l₁, hlex, hxs⟩
  | some y =>
      obtain ⟨rest, heq, hlex⟩ := h
      obtain ⟨rfl, rfl⟩ := List.cons.inj heq
      cases hlex
      exact ⟨xs, rfl, hxs⟩

theorem expect {token : BcNode} (h : Shows lexer s (some token :: xs) l') :
    ∃ l₁, s.expect lexer token = .ok ⟨l₁, none⟩ ∧ Lexes lexer l₁ xs l' := by
  obtain ⟨l₁, hpeek, hxs⟩ := h.peek
  refine ⟨l₁, ?_, hxs⟩
  unfold Look.expect
  rw [hpeek]
  exact if_pos rfl

end Shows

end Tokens

/-! ### Levels -/

/-- The level of the rule that a token goes on with, from the inside out. -/
def tokenLevel : Option BcNode → Nat
  | some (.multiplicative _) => 1
  | some (.additive _) => 2
  | some (.cmp _) | some .like | some .isIn | some .between | some .notLike | some .notIn
  | some .notBetween => 3
  | some .and => 4
  | some .or => 5
  | _ => 6

/-- The tokens of a tree, as a lexer delivers them. -/
def Tree.stream {n : Nonterminal} (t : Tree n) : List (Option BcNode) := t.tokens.map some

/-- A tree starts with a token that goes on with no other tree, below `not_expr` not with `NOT`. -/
theorem Tree.stream_cons {n : Nonterminal} (t : Tree n) :
    ∃ x xs, t.stream = x :: xs ∧ tokenLevel x = 6
      ∧ (x = some .not → n = .or ∨ n = .and ∨ n = .not) := by
  unfold stream
  induction t with
  | orUnit e ih =>
      obtain ⟨y, ys, heq, hlevel, -⟩ := ih
      exact ⟨y, ys, heq, hlevel, fun _ => Or.inl rfl⟩
  | or l r ih ihr =>
      obtain ⟨y, ys, heq, hlevel, -⟩ := ih
      simp only [tokens, List.map_append, heq, List.cons_append]
      exact ⟨y, _, rfl, hlevel, fun _ => Or.inl trivial⟩
  | andUnit e ih =>
      obtain ⟨y, ys, heq, hlevel, -⟩ := ih
      exact ⟨y, ys, heq, hlevel, fun _ => Or.inr (Or.inl rfl)⟩
  | and l r ih ihr =>
      obtain ⟨y, ys, heq, hlevel, -⟩ := ih
      simp only [tokens, List.map_append, heq, List.cons_append]
      exact ⟨y, _, rfl, hlevel, fun _ => Or.inr (Or.inl trivial)⟩
  | notUnit e ih =>
      obtain ⟨y, ys, heq, hlevel, -⟩ := ih
      exact ⟨y, ys, heq, hlevel, fun _ => Or.inr (Or.inr rfl)⟩
  | not e ih => exact ⟨_, _, rfl, rfl, fun _ => Or.inr (Or.inr rfl)⟩
  | cmpUnit e ih | additiveUnit e ih | multiplicativeUnit e ih =>
      obtain ⟨y, ys, heq, hlevel, hnot⟩ := ih
      exact ⟨y, ys, heq, hlevel, fun h => absurd (hnot h) (by decide)⟩
  | cmp op l r ih ihr | like l r ih ihr | isIn l v vs ih | between x a b ih iha ihb
  | notLike l r ih ihr | notIn l v vs ih | notBetween x a b ih iha ihb | additive op l r ih ihr
  | multiplicative op l r ih ihr =>
      obtain ⟨y, ys, heq, hlevel, hnot⟩ := ih
      simp only [tokens, List.map_append, heq, List.cons_append]
      exact ⟨y, _, rfl, hlevel, fun h => absurd (hnot h) (by decide)⟩
  | value v => exact ⟨_, _, rfl, rfl, fun h => nomatch h⟩
  | paren e ih => exact ⟨_, _, rfl, rfl, fun h => nomatch h⟩

/-- Fuel for the parser on the tokens of a tree. -/
def Tree.cost : {n : Nonterminal} → Tree n → Nat
  | _, .orUnit e | _, .andUnit e | _, .notUnit e | _, .not e | _, .cmpUnit e | _, .additiveUnit e
  | _, .multiplicativeUnit e | _, .paren e => e.cost + 2
  | _, .or l r | _, .and l r | _, .cmp _ l r | _, .like l r | _, .notLike l r | _, .additive _ l r
  | _, .multiplicative _ l r => l.cost + r.cost + 2
  | _, .isIn l _ vs | _, .notIn l _ vs => l.cost + vs.length + 4
  | _, .between x a b | _, .notBetween x a b => x.cost + a.cost + b.cost + 2
  | _, .value _ => 1

/-! ### Loops -/

section Loops

variable {lexer : Lexer L E} {O A B : Type} {op? : BcNode → Option O}
  {operand : Look L → Except E (Look L × B)} {reduce : O → A → B → Except E A}

theorem leftLoop_op {k : Nat} {v : A} {l : L} {token : BcNode} {op : O} (hop : op? token = some op) :
    leftLoop lexer op? operand reduce (k + 1) v ⟨l, some (some token)⟩
      = (operand ⟨l, none⟩ >>= fun (s, r) =>
          reduce op v r >>= fun e => leftLoop lexer op? operand reduce k e s) := by
  rw [leftLoop]
  dsimp only [Look.peek, bind, Except.bind, pure, Except.pure, Option.bind]
  rw [hop]
  rfl

theorem leftLoop_stop {k : Nat} {v : A} {l : L} {x : Option BcNode} (hop : x.bind op? = none) :
    leftLoop lexer op? operand reduce (k + 1) v ⟨l, some x⟩ = .ok (⟨l, some x⟩, v) := by
  rw [leftLoop]
  dsimp only [Look.peek, bind, Except.bind, pure, Except.pure]
  rw [hop]

theorem leftLoop_look {k : Nat} {v : A} {σ : Look L} {l' : L} {x : Option BcNode}
    (h : Shows lexer σ [x] l') :
    leftLoop lexer op? operand reduce k v σ
      = leftLoop lexer op? operand reduce k v ⟨l', some x⟩ := by
  cases k with
  | zero => rfl
  | succ k =>
      obtain ⟨l₁, hpeek, rfl⟩ := h.peek
      rw [leftLoop, leftLoop, hpeek]
      rfl

theorem left_unit {s σ : Look L} {fold : Except E B} {unit : B → Except E A} {k : Nat} {l' : L}
    {x : Option BcNode} (hσ : Shows lexer σ [x] l')
    (hoperand : operand s = fold >>= fun e => .ok (σ, e)) :
    (finish operand unit s >>= fun (s, e) => leftLoop lexer op? operand reduce k e s)
      = (fold >>= unit) >>= fun v => leftLoop lexer op? operand reduce k v ⟨l', some x⟩ := by
  unfold finish
  rw [hoperand]
  cases fold with
  | error e => rfl
  | ok v =>
      dsimp only [bind, Except.bind]
      cases unit v with
      | error e => rfl
      | ok e => exact leftLoop_look hσ

theorem left_op {parsed : Except E (Look L × A)} {l l' : L} {σ : Look L} {token : BcNode} {op : O}
    {lfold : Except E A} {rfold : Except E B} {k : Nat} {x : Option BcNode}
    (hop : op? token = some op) (hσ : Shows lexer σ [x] l')
    (hl : parsed = lfold >>= fun v =>
      leftLoop lexer op? operand reduce (k + 1) v ⟨l, some (some token)⟩)
    (hr : operand ⟨l, none⟩ = rfold >>= fun r => .ok (σ, r)) :
    parsed = (lfold >>= fun l => rfold >>= fun r => reduce op l r) >>= fun v =>
      leftLoop lexer op? operand reduce k v ⟨l', some x⟩ := by
  rw [hl]
  cases lfold with
  | error e => rfl
  | ok v =>
      dsimp only [bind, Except.bind]
      rw [leftLoop_op hop, hr]
      cases rfold with
      | error e => rfl
      | ok r =>
          dsimp only [bind, Except.bind]
          cases reduce op v r with
          | error e => rfl
          | ok e => exact leftLoop_look hσ

theorem finish_eq {s σ : Look L} {fold : Except E B} {f : B → Except E A}
    (hoperand : operand s = fold >>= fun e => .ok (σ, e)) :
    finish operand f s = (fold >>= f) >>= fun v => .ok (σ, v) := by
  unfold finish
  rw [hoperand]
  cases fold with
  | error e => rfl
  | ok v => rfl

theorem finishBetween_eq {s σ σ' : Look L} {fold fold' : Except E B} {f : B → B → Except E A}
    (hfirst : operand s = fold >>= fun e => .ok (σ, e))
    (hsecond : operand σ = fold' >>= fun e => .ok (σ', e)) :
    finishBetween operand f s
      = (fold >>= fun a => fold' >>= fun b => f a b) >>= fun v => .ok (σ', v) := by
  unfold finishBetween
  rw [hfirst]
  cases fold with
  | error e => rfl
  | ok a =>
      dsimp only [bind, Except.bind]
      rw [hsecond]
      cases fold' with
      | error e => rfl
      | ok b => rfl

end Loops

section Lists

variable {lexer : Lexer L E}

theorem parseValues_eq {vs : List Datum} (actions : Actions E V W) {fuel : Nat} {s : Look L} {l' : L}
    {x : Option BcNode} (hx : ∀ d, x ≠ some (.datum d)) (hfuel : vs.length < fuel)
    (h : Shows lexer s (vs.map (fun v => some (.datum v)) ++ [x]) l') :
    parseValues lexer actions fuel s
      = vs.mapM actions.value >>= fun ws => .ok (⟨l', some x⟩, ws) := by
  induction vs generalizing fuel s with
  | nil =>
      obtain ⟨fuel, rfl⟩ := Nat.exists_eq_succ_of_ne_zero (Nat.ne_zero_of_lt hfuel)
      obtain ⟨l₁, hpeek, rfl⟩ := h.peek
      rw [Nat.succ_eq_add_one, parseValues, hpeek]
      dsimp only [bind, Except.bind]
      cases x with
      | none => rfl
      | some token =>
          cases token with
          | datum d => exact absurd rfl (hx d)
          | _ => rfl
  | cons v vs ih =>
      obtain ⟨fuel, rfl⟩ := Nat.exists_eq_succ_of_ne_zero (Nat.ne_zero_of_lt hfuel)
      obtain ⟨l₁, hpeek, hrest⟩ := h.peek
      have hvs := ih (Nat.lt_of_succ_lt_succ hfuel) (Shows.shifted l₁ hrest)
      rw [Nat.succ_eq_add_one, parseValues, hpeek, List.mapM_cons]
      dsimp only [bind, Except.bind, Look.shift]
      cases actions.value v with
      | error e => rfl
      | ok w =>
          dsimp only
          rw [hvs]
          cases vs.mapM actions.value with
          | error e => rfl
          | ok ws => rfl

theorem parseList_eq {v : Datum} {vs : List Datum} (actions : Actions E V W) (fuel : Nat)
    {s : Look L} {l' : L}
    (hfuel : vs.length + 1 < fuel)
    (h : Shows lexer s
      (some .lparen :: (v :: vs).map (fun v => some (.datum v)) ++ [some .rparen]) l') :
    parseList lexer actions fuel s
      = (actions.value v >>= fun v => vs.mapM actions.value >>= fun vs => .ok (v, vs)) >>= fun vs =>
          .ok (⟨l', none⟩, vs) := by
  obtain ⟨l₁, hexpect, hrest⟩ := h.expect
  have hparen (d : Datum) : some BcNode.rparen ≠ some (.datum d) := nofun
  have hvs := parseValues_eq actions hparen hfuel (Shows.shifted l₁ hrest)
  unfold parseList
  rw [hexpect]
  dsimp only [bind, Except.bind]
  rw [hvs, List.mapM_cons]
  cases actions.value v with
  | error e => rfl
  | ok w =>
      dsimp only [bind, Except.bind]
      cases vs.mapM actions.value with
      | error e => rfl
      | ok ws => rfl

theorem finish_list_eq {A B : Type} {operand : Look L → Except E (Look L × B × List B)}
    {s σ : Look L} {value : Except E B} {values : Except E (List B)} {f : B × List B → Except E A}
    (hoperand : operand s
      = (value >>= fun v => values >>= fun vs => .ok (v, vs)) >>= fun vs => .ok (σ, vs)) :
    finish operand f s
      = (value >>= fun v => values >>= fun vs => f (v, vs)) >>= fun v => .ok (σ, v) := by
  rw [finish_eq hoperand]
  cases value with
  | error e => rfl
  | ok v =>
      cases values with
      | error e => rfl
      | ok vs => rfl

end Lists

/-! ### Trees -/

section Trees

variable {lexer : Lexer L E} {actions : Actions E V W}

/-- The parser on the tokens of a tree and a token of at least this level: it has the value of the tree and is
in the loop of its rule, with some fuel left over. -/
def ParsesTo (lexer : Lexer L E) (actions : Actions E V W) {n : Nonterminal}
    (parse : Nat → Look L → Except E (Look L × V n))
    (loop : Nat → Nat → V n → Look L → Except E (Look L × V n)) (level : Nat) (t : Tree n) : Prop :=
  ∀ fuel k s x l', t.cost + k ≤ fuel → level ≤ tokenLevel x →
    Shows lexer s (t.stream ++ [x]) l' →
    ∃ k', k ≤ k' ∧ parse fuel s = t.fold actions >>= fun v => loop fuel k' v ⟨l', some x⟩

def loopOr (lexer : Lexer L E) (actions : Actions E V W) (fuel : Nat) :
    Nat → V .or → Look L → Except E (Look L × V .or) :=
  leftLoop lexer isOr (parseAnd lexer actions (fuel - 1)) (fun _ l r => actions.reduce (.or l r))

def loopAnd (lexer : Lexer L E) (actions : Actions E V W) (fuel : Nat) :
    Nat → V .and → Look L → Except E (Look L × V .and) :=
  leftLoop lexer isAnd (parseNot lexer actions (fuel - 1)) (fun _ l r => actions.reduce (.and l r))

def loopAdditive (lexer : Lexer L E) (actions : Actions E V W) (fuel : Nat) :
    Nat → V .additive → Look L → Except E (Look L × V .additive) :=
  leftLoop lexer isAdditive (parseMultiplicative lexer actions (fuel - 1))
    (fun op l r => actions.reduce (.additive op l r))

def loopMultiplicative (lexer : Lexer L E) (actions : Actions E V W) (fuel : Nat) :
    Nat → V .multiplicative → Look L → Except E (Look L × V .multiplicative) :=
  leftLoop lexer isMultiplicative (parseAtom lexer actions (fuel - 1))
    (fun op l r => actions.reduce (.multiplicative op l r))

/-- The parser of a left side on the tokens of its trees and a token of at least this level: it has the value
of the tree, and the token is next. -/
def Reads (lexer : Lexer L E) (actions : Actions E V W) {n : Nonterminal}
    (parse : Nat → Look L → Except E (Look L × V n)) (level : Nat) (t : Tree n) : Prop :=
  ∀ fuel s x l', t.cost + 1 ≤ fuel → level ≤ tokenLevel x → Shows lexer s (t.stream ++ [x]) l' →
    ∃ σ, Shows lexer σ [x] l' ∧ parse fuel s = t.fold actions >>= fun v => .ok (σ, v)

def Parses (lexer : Lexer L E) (actions : Actions E V W) : {n : Nonterminal} → Tree n → Prop
  | .or, t => ParsesTo lexer actions (parseOr lexer actions) (loopOr lexer actions) 5 t
  | .and, t => ParsesTo lexer actions (parseAnd lexer actions) (loopAnd lexer actions) 4 t
  | .not, t => Reads lexer actions (parseNot lexer actions) 4 t
  | .cmp, t => Reads lexer actions (parseCmp lexer actions) 4 t
  | .additive, t =>
      ParsesTo lexer actions (parseAdditive lexer actions) (loopAdditive lexer actions) 2 t
  | .multiplicative, t =>
      ParsesTo lexer actions (parseMultiplicative lexer actions) (loopMultiplicative lexer actions) 1 t
  | .atom, t => Reads lexer actions (parseAtom lexer actions) 0 t

theorem or_stop {x : Option BcNode} (h : 6 ≤ tokenLevel x) : x.bind isOr = none := by
  cases x with
  | none => rfl
  | some token => cases token <;> first | rfl | exact absurd h (Nat.lt_irrefl _)

theorem and_stop {x : Option BcNode} (h : 5 ≤ tokenLevel x) : x.bind isAnd = none := by
  cases x with
  | none => rfl
  | some token => cases token <;> first | rfl | exact absurd h (Nat.lt_irrefl _)

theorem additive_stop {x : Option BcNode} (h : 3 ≤ tokenLevel x) : x.bind isAdditive = none := by
  cases x with
  | none => rfl
  | some token => cases token <;> first | rfl | exact absurd h (Nat.lt_irrefl _)

theorem multiplicative_stop {x : Option BcNode} (h : 2 ≤ tokenLevel x) :
    x.bind isMultiplicative = none := by
  cases x with
  | none => rfl
  | some token => cases token <;> first | rfl | exact absurd h (Nat.lt_irrefl _)

theorem ParsesTo.reads {n : Nonterminal} {t : Tree n} {parse : Nat → Look L → Except E (Look L × V n)}
    {loop : Nat → Nat → V n → Look L → Except E (Look L × V n)} {level : Nat}
    (h : ParsesTo lexer actions parse loop level t)
    (hstop : ∀ fuel k v l x, level + 1 ≤ tokenLevel x →
      loop fuel (k + 1) v ⟨l, some x⟩ = .ok (⟨l, some x⟩, v)) :
    Reads lexer actions parse (level + 1) t := by
  intro fuel s x l' hfuel hx hs
  obtain ⟨k, hk, heq⟩ := h fuel 1 s x l' hfuel (Nat.le_of_succ_le hx) hs
  obtain ⟨k, rfl⟩ := Nat.exists_eq_succ_of_ne_zero (Nat.ne_zero_of_lt hk)
  refine ⟨⟨l', some x⟩, Shows.ahead l' rfl, heq.trans ?_⟩
  exact bind_congr fun v => hstop fuel k v l' x hx

theorem Parses.or {t : Tree .or} (h : Parses lexer actions t) :
    Reads lexer actions (parseOr lexer actions) 6 t :=
  ParsesTo.reads h fun _ _ _ _ _ hx => leftLoop_stop (or_stop hx)

theorem Parses.and {t : Tree .and} (h : Parses lexer actions t) :
    Reads lexer actions (parseAnd lexer actions) 5 t :=
  ParsesTo.reads h fun _ _ _ _ _ hx => leftLoop_stop (and_stop hx)

theorem Parses.additive {t : Tree .additive} (h : Parses lexer actions t) :
    Reads lexer actions (parseAdditive lexer actions) 3 t :=
  ParsesTo.reads h fun _ _ _ _ _ hx => leftLoop_stop (additive_stop hx)

theorem Parses.multiplicative {t : Tree .multiplicative} (h : Parses lexer actions t) :
    Reads lexer actions (parseMultiplicative lexer actions) 2 t :=
  ParsesTo.reads h fun _ _ _ _ _ hx => leftLoop_stop (multiplicative_stop hx)

theorem shows_append {n : Nonterminal} {t : Tree n} {s : Look L} {xs : List (Option BcNode)}
    {x : Option BcNode} {l' : L} (hs : Shows lexer s (t.stream ++ x :: xs) l') :
    ∃ l₁, Shows lexer s (t.stream ++ [x]) l₁ ∧ Lexes lexer l₁ xs l' := by
  obtain ⟨y, ys, hstart, -, -⟩ := t.stream_cons
  rw [hstart] at hs ⊢
  have heq : y :: ys ++ x :: xs = (y :: (ys ++ [x])) ++ xs := by simp
  rw [heq] at hs
  exact hs.append

theorem stream_op {n m : Nonterminal} (l : Tree n) (r : Tree m) (token : BcNode)
    (x : Option BcNode) :
    (l.tokens ++ token :: r.tokens).map some ++ [x] = l.stream ++ some token :: (r.stream ++ [x]) := by
  simp [Tree.stream]

theorem stream_list {n : Nonterminal} (l : Tree n) (v : Datum) (vs : List Datum) (token : BcNode)
    (x : Option BcNode) :
    (l.tokens ++ token :: .lparen :: .datum v :: vs.map .datum ++ [BcNode.rparen]).map some ++ [x]
      = l.stream ++ some token ::
        ((some .lparen :: (v :: vs).map (fun v => some (.datum v)) ++ [some .rparen]) ++ [x]) := by
  simp [Tree.stream, Function.comp_def]

theorem stream_between {n m k : Nonterminal} (e : Tree n) (a : Tree m) (b : Tree k) (token : BcNode)
    (x : Option BcNode) :
    (e.tokens ++ token :: a.tokens ++ b.tokens).map some ++ [x]
      = e.stream ++ some token :: (a.stream ++ (b.stream ++ [x])) := by
  simp [Tree.stream]

theorem parseCmp_eq {fuel : Nat} {s σ₁ σ : Look L} {fold : Except E (V .additive)}
    {f : V .additive → Except E (V .cmp)}
    (hl : parseAdditive lexer actions fuel s = fold >>= fun v => .ok (σ₁, v))
    (hrest : ∀ v, cmpRest lexer actions fuel (parseAdditive lexer actions fuel) v σ₁
      = f v >>= fun v => .ok (σ, v)) :
    parseCmp lexer actions (fuel + 1) s = (fold >>= f) >>= fun v => .ok (σ, v) := by
  rw [parseCmp, hl]
  cases fold with
  | error e => rfl
  | ok v => exact hrest v

/-- A token of a higher level ends a comparison behind its first operand. -/
theorem cmpRest_stop {fuel : Nat} {additive : Look L → Except E (Look L × V .additive)}
    {l : V .additive} {s : Look L} {x : Option BcNode} {l' : L} (hx : 4 ≤ tokenLevel x)
    (hs : Shows lexer s [x] l') :
    cmpRest lexer actions fuel additive l s
      = actions.reduce (.cmpUnit l) >>= fun v => .ok (⟨l', some x⟩, v) := by
  obtain ⟨_, hpeek, rfl⟩ := hs.peek
  unfold cmpRest
  rw [hpeek]
  cases x with
  | none => rfl
  | some token => cases token <;> first | rfl | exact absurd hx (by simp [tokenLevel])

theorem parses (lexer : Lexer L E) (actions : Actions E V W) {n : Nonterminal} (t : Tree n) :
    Parses lexer actions t := by
  induction t with
  | orUnit e ih =>
      rintro (_ | fuel) k s x l' hfuel hx hs
      · rw [Tree.cost] at hfuel
        omega
      · rw [Tree.cost] at hfuel
        obtain ⟨σ, hσ, he⟩ := ih.and fuel s x l' (by omega) (by omega) hs
        exact ⟨fuel, by omega, left_unit hσ he⟩
  | or l r ihl ihr =>
      intro fuel k s x l' hfuel hx hs
      rw [Tree.cost] at hfuel
      unfold Tree.stream at hs
      rw [Tree.tokens, stream_op] at hs
      obtain ⟨l₁, hsl, hsr⟩ := shows_append hs
      obtain ⟨k₁, hk₁, hl⟩ :=
        ihl fuel (r.cost + 2 + k) s (some .or) l₁ (by omega) (Nat.le_refl _) hsl
      obtain ⟨k₂, rfl⟩ := Nat.exists_eq_succ_of_ne_zero (show k₁ ≠ 0 by omega)
      obtain ⟨σ, hσ, hr⟩ := ihr.and (fuel - 1) ⟨l₁, none⟩ x l' (by omega) (by omega) hsr
      exact ⟨k₂, by omega, left_op (show isOr .or = some () from rfl) hσ hl hr⟩
  | andUnit e ih =>
      rintro (_ | fuel) k s x l' hfuel hx hs
      · rw [Tree.cost] at hfuel
        omega
      · rw [Tree.cost] at hfuel
        obtain ⟨σ, hσ, he⟩ := ih fuel s x l' (by omega) (by omega) hs
        exact ⟨fuel, by omega, left_unit hσ he⟩
  | and l r ihl ihr =>
      intro fuel k s x l' hfuel hx hs
      rw [Tree.cost] at hfuel
      unfold Tree.stream at hs
      rw [Tree.tokens, stream_op] at hs
      obtain ⟨l₁, hsl, hsr⟩ := shows_append hs
      obtain ⟨k₁, hk₁, hl⟩ :=
        ihl fuel (r.cost + 2 + k) s (some .and) l₁ (by omega) (Nat.le_refl _) hsl
      obtain ⟨k₂, rfl⟩ := Nat.exists_eq_succ_of_ne_zero (show k₁ ≠ 0 by omega)
      obtain ⟨σ, hσ, hr⟩ := ihr (fuel - 1) ⟨l₁, none⟩ x l' (by omega) (by omega) hsr
      exact ⟨k₂, by omega, left_op (show isAnd .and = some () from rfl) hσ hl hr⟩
  | notUnit e ih =>
      rintro (_ | fuel) s x l' hfuel hx hs
      · omega
      · rw [Tree.cost] at hfuel
        obtain ⟨y, ys, hstart, -, hnot⟩ := e.stream_cons
        have hne : y ≠ some .not := fun h => absurd (hnot h) (by decide)
        unfold Tree.stream at hs
        rw [Tree.tokens, show e.tokens.map some = y :: ys from hstart] at hs
        obtain ⟨l₁, hpeek, hrest⟩ := Shows.peek hs
        have hs' : Shows lexer ⟨l₁, some y⟩ (e.stream ++ [x]) l' := by
          rw [hstart]
          exact Shows.ahead l₁ hrest
        obtain ⟨σ, hσ, he⟩ := ih fuel ⟨l₁, some y⟩ x l' (by omega) hx hs'
        refine ⟨σ, hσ, ?_⟩
        rw [parseNot, hpeek]
        dsimp only [bind, Except.bind]
        split
        · exact absurd rfl hne
        · exact finish_eq he
  | not e ih =>
      rintro (_ | fuel) s x l' hfuel hx hs
      · omega
      · rw [Tree.cost] at hfuel
        obtain ⟨l₁, hpeek, hrest⟩ := Shows.peek hs
        obtain ⟨σ, hσ, he⟩ := ih fuel ⟨l₁, none⟩ x l' (by omega) hx hrest
        refine ⟨σ, hσ, ?_⟩
        rw [parseNot, hpeek]
        dsimp only [bind, Except.bind, Look.shift]
        exact finish_eq he
  | cmpUnit e ih =>
      rintro (_ | fuel) s x l' hfuel hx hs
      · omega
      · rw [Tree.cost] at hfuel
        obtain ⟨σ₁, hσ₁, he⟩ := ih.additive fuel s x l' (by omega) (by omega) hs
        exact ⟨⟨l', some x⟩, Shows.ahead l' rfl, parseCmp_eq he fun v => cmpRest_stop hx hσ₁⟩
  | cmp op l r ihl ihr =>
      rintro (_ | fuel) s x l' hfuel hx hs
      · omega
      · rw [Tree.cost] at hfuel
        unfold Tree.stream at hs
        rw [Tree.tokens, stream_op] at hs
        obtain ⟨l₁, hsl, hsr⟩ := shows_append hs
        obtain ⟨σ₁, hσ₁, hl⟩ := ihl.additive fuel s (some (.cmp op)) l₁ (by omega) (Nat.le_refl _) hsl
        obtain ⟨σ, hσ, hr⟩ := ihr.additive fuel ⟨l₁, none⟩ x l' (by omega) (by omega) hsr
        refine ⟨σ, hσ, parseCmp_eq hl fun lv => ?_⟩
        obtain ⟨_, hpeek, rfl⟩ := hσ₁.peek
        unfold cmpRest
        rw [hpeek]
        dsimp only [bind, Except.bind, Look.shift]
        exact finish_eq hr
  | like l r ihl ihr =>
      rintro (_ | fuel) s x l' hfuel hx hs
      · omega
      · rw [Tree.cost] at hfuel
        unfold Tree.stream at hs
        rw [Tree.tokens, stream_op] at hs
        obtain ⟨l₁, hsl, hsr⟩ := shows_append hs
        obtain ⟨σ₁, hσ₁, hl⟩ := ihl.additive fuel s (some .like) l₁ (by omega) (Nat.le_refl _) hsl
        obtain ⟨σ, hσ, hr⟩ := ihr.additive fuel ⟨l₁, none⟩ x l' (by omega) (by omega) hsr
        refine ⟨σ, hσ, parseCmp_eq hl fun lv => ?_⟩
        obtain ⟨_, hpeek, rfl⟩ := hσ₁.peek
        unfold cmpRest
        rw [hpeek]
        dsimp only [bind, Except.bind, Look.shift]
        exact finish_eq hr
  | isIn l v vs ih =>
      rintro (_ | fuel) s x l' hfuel hx hs
      · omega
      · rw [Tree.cost] at hfuel
        unfold Tree.stream at hs
        rw [Tree.tokens, stream_list] at hs
        obtain ⟨l₁, hsl, hsr⟩ := shows_append hs
        obtain ⟨l₂, hlist, hx'⟩ := Lexes.append_iff.mp hsr
        obtain ⟨σ₁, hσ₁, hl⟩ := ih.additive fuel s (some .isIn) l₁ (by omega) (Nat.le_refl _) hsl
        have hvs := parseList_eq actions fuel (by omega) (Shows.shifted l₁ hlist)
        refine ⟨⟨l₂, none⟩, hx', parseCmp_eq hl fun lv => ?_⟩
        obtain ⟨_, hpeek, rfl⟩ := hσ₁.peek
        unfold cmpRest
        rw [hpeek]
        dsimp only [bind, Except.bind, Look.shift]
        exact finish_list_eq hvs
  | between e a b ihe iha ihb =>
      rintro (_ | fuel) s x l' hfuel hx hs
      · omega
      · rw [Tree.cost] at hfuel
        obtain ⟨y, ys, hstart, hlevel, -⟩ := b.stream_cons
        unfold Tree.stream at hs
        rw [Tree.tokens, stream_between, hstart] at hs
        obtain ⟨l₁, hse, hsr⟩ := shows_append hs
        obtain ⟨l₂, hsa, hsb⟩ := shows_append (Shows.shifted l₁ hsr)
        obtain ⟨σ₁, hσ₁, he⟩ := ihe.additive fuel s (some .between) l₁ (by omega) (Nat.le_refl _) hse
        obtain ⟨σ₂, hσ₂, ha⟩ := iha.additive fuel ⟨l₁, none⟩ y l₂ (by omega) (by omega) hsa
        have hsb' : Shows lexer σ₂ (b.stream ++ [x]) l' := by
          rw [hstart]
          exact hσ₂.more hsb
        obtain ⟨σ, hσ, hb⟩ := ihb.additive fuel σ₂ x l' (by omega) (by omega) hsb'
        refine ⟨σ, hσ, parseCmp_eq he fun lv => ?_⟩
        obtain ⟨_, hpeek, rfl⟩ := hσ₁.peek
        unfold cmpRest
        rw [hpeek]
        dsimp only [bind, Except.bind, Look.shift]
        exact finishBetween_eq ha hb
  | notLike l r ihl ihr =>
      rintro (_ | fuel) s x l' hfuel hx hs
      · omega
      · rw [Tree.cost] at hfuel
        unfold Tree.stream at hs
        rw [Tree.tokens, stream_op] at hs
        obtain ⟨l₁, hsl, hsr⟩ := shows_append hs
        obtain ⟨σ₁, hσ₁, hl⟩ := ihl.additive fuel s (some .notLike) l₁ (by omega) (Nat.le_refl _) hsl
        obtain ⟨σ, hσ, hr⟩ := ihr.additive fuel ⟨l₁, none⟩ x l' (by omega) (by omega) hsr
        refine ⟨σ, hσ, parseCmp_eq hl fun lv => ?_⟩
        obtain ⟨_, hpeek, rfl⟩ := hσ₁.peek
        unfold cmpRest
        rw [hpeek]
        dsimp only [bind, Except.bind, Look.shift]
        exact finish_eq hr
  | notIn l v vs ih =>
      rintro (_ | fuel) s x l' hfuel hx hs
      · omega
      · rw [Tree.cost] at hfuel
        unfold Tree.stream at hs
        rw [Tree.tokens, stream_list] at hs
        obtain ⟨l₁, hsl, hsr⟩ := shows_append hs
        obtain ⟨l₂, hlist, hx'⟩ := Lexes.append_iff.mp hsr
        obtain ⟨σ₁, hσ₁, hl⟩ := ih.additive fuel s (some .notIn) l₁ (by omega) (Nat.le_refl _) hsl
        have hvs := parseList_eq actions fuel (by omega) (Shows.shifted l₁ hlist)
        refine ⟨⟨l₂, none⟩, hx', parseCmp_eq hl fun lv => ?_⟩
        obtain ⟨_, hpeek, rfl⟩ := hσ₁.peek
        unfold cmpRest
        rw [hpeek]
        dsimp only [bind, Except.bind, Look.shift]
        exact finish_list_eq hvs
  | notBetween e a b ihe iha ihb =>
      rintro (_ | fuel) s x l' hfuel hx hs
      · omega
      · rw [Tree.cost] at hfuel
        obtain ⟨y, ys, hstart, hlevel, -⟩ := b.stream_cons
        unfold Tree.stream at hs
        rw [Tree.tokens, stream_between, hstart] at hs
        obtain ⟨l₁, hse, hsr⟩ := shows_append hs
        obtain ⟨l₂, hsa, hsb⟩ := shows_append (Shows.shifted l₁ hsr)
        obtain ⟨σ₁, hσ₁, he⟩ := ihe.additive fuel s (some .notBetween) l₁ (by omega) (Nat.le_refl _) hse
        obtain ⟨σ₂, hσ₂, ha⟩ := iha.additive fuel ⟨l₁, none⟩ y l₂ (by omega) (by omega) hsa
        have hsb' : Shows lexer σ₂ (b.stream ++ [x]) l' := by
          rw [hstart]
          exact hσ₂.more hsb
        obtain ⟨σ, hσ, hb⟩ := ihb.additive fuel σ₂ x l' (by omega) (by omega) hsb'
        refine ⟨σ, hσ, parseCmp_eq he fun lv => ?_⟩
        obtain ⟨_, hpeek, rfl⟩ := hσ₁.peek
        unfold cmpRest
        rw [hpeek]
        dsimp only [bind, Except.bind, Look.shift]
        exact finishBetween_eq ha hb
  | additiveUnit e ih =>
      rintro (_ | fuel) k s x l' hfuel hx hs
      · rw [Tree.cost] at hfuel
        omega
      · rw [Tree.cost] at hfuel
        obtain ⟨σ, hσ, he⟩ := ih.multiplicative fuel s x l' (by omega) (by omega) hs
        exact ⟨fuel, by omega, left_unit hσ he⟩
  | additive op l r ihl ihr =>
      intro fuel k s x l' hfuel hx hs
      rw [Tree.cost] at hfuel
      unfold Tree.stream at hs
      rw [Tree.tokens, stream_op] at hs
      obtain ⟨l₁, hsl, hsr⟩ := shows_append hs
      obtain ⟨k₁, hk₁, hl⟩ :=
        ihl fuel (r.cost + 2 + k) s (some (.additive op)) l₁ (by omega) (Nat.le_refl _) hsl
      obtain ⟨k₂, rfl⟩ := Nat.exists_eq_succ_of_ne_zero (show k₁ ≠ 0 by omega)
      obtain ⟨σ, hσ, hr⟩ := ihr.multiplicative (fuel - 1) ⟨l₁, none⟩ x l' (by omega) (by omega) hsr
      exact ⟨k₂, by omega, left_op (show isAdditive (.additive op) = some op from rfl) hσ hl hr⟩
  | multiplicativeUnit e ih =>
      rintro (_ | fuel) k s x l' hfuel hx hs
      · rw [Tree.cost] at hfuel
        omega
      · rw [Tree.cost] at hfuel
        obtain ⟨σ, hσ, he⟩ := ih fuel s x l' (by omega) (by omega) hs
        exact ⟨fuel, by omega, left_unit hσ he⟩
  | multiplicative op l r ihl ihr =>
      intro fuel k s x l' hfuel hx hs
      rw [Tree.cost] at hfuel
      unfold Tree.stream at hs
      rw [Tree.tokens, stream_op] at hs
      obtain ⟨l₁, hsl, hsr⟩ := shows_append hs
      obtain ⟨k₁, hk₁, hl⟩ :=
        ihl fuel (r.cost + 2 + k) s (some (.multiplicative op)) l₁ (by omega) (Nat.le_refl _) hsl
      obtain ⟨k₂, rfl⟩ := Nat.exists_eq_succ_of_ne_zero (show k₁ ≠ 0 by omega)
      obtain ⟨σ, hσ, hr⟩ := ihr (fuel - 1) ⟨l₁, none⟩ x l' (by omega) (by omega) hsr
      exact ⟨k₂, by omega, left_op (show isMultiplicative (.multiplicative op) = some op from rfl) hσ hl hr⟩
  | value v =>
      rintro (_ | fuel) s x l' hfuel hx hs
      · omega
      · obtain ⟨l₁, hpeek, hrest⟩ := Shows.peek hs
        refine ⟨⟨l₁, none⟩, hrest, ?_⟩
        rw [parseAtom, hpeek, Tree.fold]
        dsimp only [bind, Except.bind]
        cases actions.value v with
        | error e => rfl
        | ok w => rfl
  | paren e ih =>
      rintro (_ | fuel) s x l' hfuel hx hs
      · omega
      · rw [Tree.cost] at hfuel
        have hstream : (Tree.paren e).stream ++ [x]
            = some .lparen :: (e.stream ++ some .rparen :: [x]) := by
          simp [Tree.stream, Tree.tokens]
        rw [hstream] at hs
        obtain ⟨l₁, hpeek, hrest⟩ := hs.peek
        obtain ⟨l₂, hse, hx'⟩ := shows_append (Shows.shifted l₁ hrest)
        obtain ⟨σ, hσ, he⟩ := ih.or fuel ⟨l₁, none⟩ (some .rparen) l₂ (by omega) (Nat.le_refl _) hse
        obtain ⟨_, hexpect, rfl⟩ := hσ.expect
        refine ⟨⟨_, none⟩, hx', ?_⟩
        rw [parseAtom, hpeek, Tree.fold]
        dsimp only [bind, Except.bind, Look.shift]
        rw [he]
        cases e.fold actions with
        | error e => rfl
        | ok v =>
            dsimp only [bind, Except.bind]
            rw [hexpect]
            rfl

end Trees

end Scroller.Execute

import Scroller.Proof.FirstParsing

/-!
# What the first parser reads

Every command of the grammar is read by the first parser, with the fuel that it has, and nothing else is.
-/

namespace Scroller.Hquery

open Descent Filter

section Complete

/-- How far above a value the rule stands that a token goes on with. -/
def tokenLevel : Option Token → Nat
  | some (.multiplicative _) => 1
  | some (.additive _) => 2
  | some (.cmp _) | some .like | some .isIn | some .between | some .not => 3
  | some .and => 4
  | some .or => 5
  | _ => 6

/-- The lowest level that a left side does not go on with. -/
def followLevel : Nonterminal → Nat
  | .atom => 1
  | .multiplicative => 2
  | .additive => 3
  | .cmp | .not => 4
  | .and => 5
  | .or => 6

def Follows (n : Nonterminal) (x : Option Token) : Prop := followLevel n ≤ tokenLevel x

/-- The parser of its left side reads a tree. -/
abbrev TreeReads {n : Nonterminal} (t : Tree n) : Prop := Consumes (parse n) (Follows n) t.tokens t.emitted

/-- Up to a loop behind its last operand, with as much less fuel as the tree has operators. -/
def LoopReads (m : Nonterminal) (op? : Token → Option BcNode) {n : Nonterminal} (t : Tree n) : Prop :=
  ∃ j, ∀ rest out, Follows m rest.head? → ∀ᶠ k in atTop, ∀ fuel,
    (parse m k ⟨t.tokens ++ rest, out⟩ >>= operators op? (parse m k) (fuel + j))
      = operators op? (parse m k) fuel ⟨rest, out ++ t.emitted⟩

section Loop

variable {n m : Nonterminal} {op? : Token → Option BcNode} {t : Tree n}

theorem loop_unit {e : Tree m} (htokens : t.tokens = e.tokens) (hemitted : t.emitted = e.emitted) (he : TreeReads e) :
    LoopReads m op? t := by
  refine ⟨0, fun rest out hfollows => ?_⟩
  filter_upwards [he rest out hfollows] with k hk fuel
  rw [htokens, hemitted, hk]
  rfl

theorem loop_op {l : Tree n} {r : Tree m} {token : Token} {node : BcNode}
    (htokens : t.tokens = l.tokens ++ token :: r.tokens) (hemitted : t.emitted = l.emitted ++ node :: r.emitted)
    (hop : op? token = some node) (hfollows : Follows m (some token)) (hl : LoopReads m op? l) (hr : TreeReads r) :
    LoopReads m op? t := by
  obtain ⟨j, hl⟩ := hl
  refine ⟨j + 1, fun rest out hrest => ?_⟩
  filter_upwards [hl (token :: (r.tokens ++ rest)) out hfollows, hr rest (out ++ l.emitted ++ [node]) hrest]
    with k hleft hright fuel
  have htext : t.tokens ++ rest = l.tokens ++ token :: (r.tokens ++ rest) := by
    rw [htokens, List.append_assoc]
    rfl
  have hfuel : fuel + (j + 1) = fuel + 1 + j := by omega
  rw [htext, hfuel, hleft, operators_op hop, hright, hemitted]
  simp only [List.append_assoc, List.singleton_append]
  rfl

theorem LoopReads.reads (h : LoopReads m op? t)
    (hparse : ∀ k s, parse n (k + 1) s = parse m k s >>= operators op? (parse m k) k)
    (hstop : ∀ x, Follows n x → x.bind op? = none ∧ Follows m x) : TreeReads t := by
  obtain ⟨j, h⟩ := h
  intro rest out hfollows
  obtain ⟨hop, hm⟩ := hstop _ hfollows
  refine eventually_succ ?_
  filter_upwards [h rest out hm, eventually_gt_atTop j] with k hk hj
  obtain ⟨fuel, rfl⟩ : ∃ fuel, k = fuel + 1 + j := ⟨k - j - 1, by omega⟩
  rw [hparse, hk (fuel + 1), operators_stop hop]

end Loop

/-- A comparison does not start with `NOT`. -/
theorem tokens_head {n : Nonterminal} (t : Tree n) :
    ∃ x, t.tokens.head? = some x ∧ (n ≠ .or → n ≠ .and → n ≠ .not → x ≠ .not) := by
  induction t with
  | orUnit e ih | andUnit e ih | notUnit e ih | cmpUnit e ih | additiveUnit e ih | multiplicativeUnit e ih =>
      obtain ⟨x, htokens, hnot⟩ := ih
      exact ⟨x, htokens, by simp_all⟩
  | not e ih => exact ⟨.not, rfl, by simp⟩
  | paren e ih => exact ⟨.lparen, rfl, by simp⟩
  | value v => exact ⟨v.token, rfl, by cases v <;> simp [Value.token]⟩
  | or l r ihl _ | and l r ihl _ | cmp op l r ihl _ | like l r ihl _ | notLike l r ihl _ | additive op l r ihl _
  | multiplicative op l r ihl _ | isIn l v vs ihl | notIn l v vs ihl | between l a b ihl _ _
  | notBetween l a b ihl _ _ =>
      obtain ⟨x, htokens, hnot⟩ := ihl
      exact ⟨x, by simp [Tree.tokens, List.head?_append, htokens], by simp_all⟩

theorem value_reads (v : Value) : Consumes (fun _ => Y1.value) (fun _ => True) [v.token] [.datum v.datum] := by
  intro rest out _
  filter_upwards with k
  cases v <;> rfl

theorem values_reads (v : Value) (vs : List Value) :
    Consumes Y1.values (· ≠ some .comma) (v.token :: vs.flatMap fun v => [.comma, v.token])
      (.datum v.datum :: vs.map fun v => .datum v.datum) := by
  have hlist := list_reads Token.comma (fun v : Value => [v.token]) (fun v => [BcNode.datum v.datum]) trivial
    value_reads v vs
  rw [← List.map_eq_flatMap] at hlist
  exact hlist.imp fun t ht => ⟨trivial, ht⟩

theorem expect_eq (token : Token) (rest : List Token) (out : List BcNode) :
    State.expect token ⟨token :: rest, out⟩ = .ok ⟨rest, out⟩ := if_pos rfl

theorem inList_reads (node : BcNode) (v : Value) (vs : List Value) :
    Consumes (fun k => Y1.inList k node) (fun _ => True)
      (.lparen :: v.token :: (vs.flatMap fun v => [.comma, v.token]) ++ [.rparen])
      (node :: .lparen :: .datum v.datum :: (vs.map fun v => .datum v.datum) ++ [.rparen]) := by
  intro rest out _
  filter_upwards [values_reads v vs (.rparen :: rest) (out ++ [node, .lparen]) (by simp)] with k hk
  have htext : (Token.lparen :: v.token :: (vs.flatMap fun v => [.comma, v.token]) ++ [.rparen]) ++ rest
      = .lparen :: ((v.token :: vs.flatMap fun v => [.comma, v.token]) ++ .rparen :: rest) := by simp
  rw [htext]
  simp only [Y1.inList, expect_eq, State.put, Bind.bind, Except.bind, hk]
  simp [pure, Except.pure]

theorem bounds_reads (node : BcNode) {a b : Tree .additive} (ha : TreeReads a) (hb : TreeReads b) :
    Consumes (fun k => Y1.bounds (parse .additive k) node) (Follows .additive) (a.tokens ++ .and :: b.tokens)
      (node :: a.emitted ++ b.emitted) := by
  intro rest out hfollows
  filter_upwards [ha (.and :: (b.tokens ++ rest)) (out ++ [node]) (by decide : 3 ≤ 4),
    hb rest (out ++ [node] ++ a.emitted) hfollows] with k hka hkb
  rw [List.append_assoc, List.cons_append]
  simp only [Y1.bounds, State.put, Bind.bind, Except.bind, hka, expect_eq, hkb]
  simp

theorem cmpRest_stop {k : Nat} {additive : Parser Token BcNode} {s : Y1} (h : 4 ≤ tokenLevel s.tokens.head?) :
    Y1.cmpRest k additive s = .ok s := by
  have hlevel : ∀ {token : Token}, s.tokens.head? = some token → tokenLevel (some token) = 3 → False := by
    intro token hhead htoken
    rw [hhead, htoken] at h
    exact absurd h (by decide)
  unfold Y1.cmpRest
  split
  · next hhead => exact (hlevel hhead rfl).elim
  · next hhead => exact (hlevel hhead rfl).elim
  · next hhead => exact (hlevel hhead rfl).elim
  · next hhead => exact (hlevel hhead rfl).elim
  · next hhead => exact (hlevel hhead rfl).elim
  · rfl

/-- A comparison from its first operand and what comes behind it. -/
theorem cmp_reads {t : Tree .cmp} {l : Tree .additive} (ts : List Token) (ns : List BcNode)
    (htokens : t.tokens = l.tokens ++ ts) (hemitted : t.emitted = l.emitted ++ ns) (hl : TreeReads l)
    (hhead : ∀ rest : List Token, Follows .cmp rest.head? → Follows .additive (ts ++ rest).head?)
    (hrest : Consumes (fun k => Y1.cmpRest k (parse .additive k)) (Follows .cmp) ts ns) : TreeReads t := by
  have hboth := hl.then hrest hhead
  rw [← htokens, ← hemitted] at hboth
  exact fun rest out hfollows => eventually_succ (hboth rest out hfollows)

/-- The rules with one operand behind an operator. -/
theorem cmp_operand_reads {t : Tree .cmp} {l r : Tree .additive} (ts : List Token) {node : BcNode}
    (htokens : t.tokens = l.tokens ++ (ts ++ r.tokens)) (hemitted : t.emitted = l.emitted ++ node :: r.emitted)
    (hl : TreeReads l) (hr : TreeReads r)
    (hhead : ∀ rest : List Token, Follows .additive (ts ++ rest).head?)
    (hrest : ∀ k rest out, Y1.cmpRest k (parse .additive k) ⟨ts ++ rest, out⟩ = parse .additive k ⟨rest, out ++ [node]⟩) :
    TreeReads t := by
  refine cmp_reads _ _ htokens hemitted hl (fun rest _ => ?_) fun rest out hfollows => ?_
  · rw [List.append_assoc]
    exact hhead _
  · have hlevel : Follows .additive rest.head? := Nat.le_of_succ_le hfollows
    filter_upwards [hr rest (out ++ [node]) hlevel] with k hk
    rw [List.append_assoc, hrest, hk]
    simp

theorem or_stop {x : Option Token} (h : 6 ≤ tokenLevel x) : x.bind Y1.isOr = none := by
  cases x with
  | none => rfl
  | some token => cases token <;> first | rfl | exact absurd h (by decide : ¬ 6 ≤ 5)

theorem and_stop {x : Option Token} (h : 5 ≤ tokenLevel x) : x.bind Y1.isAnd = none := by
  cases x with
  | none => rfl
  | some token => cases token <;> first | rfl | exact absurd h (by decide : ¬ 5 ≤ 4)

theorem additive_stop {x : Option Token} (h : 3 ≤ tokenLevel x) : x.bind Y1.isAdditive = none := by
  cases x with
  | none => rfl
  | some token => cases token <;> first | rfl | exact absurd h (by decide : ¬ 3 ≤ 2)

theorem multiplicative_stop {x : Option Token} (h : 2 ≤ tokenLevel x) : x.bind Y1.isMultiplicative = none := by
  cases x with
  | none => rfl
  | some token => cases token <;> first | rfl | exact absurd h (by decide : ¬ 2 ≤ 1)

theorem parseNot_not (k : Nat) (rest : List Token) (out : List BcNode) :
    parse .not (k + 1) ⟨.not :: rest, out⟩ = parse .not k ⟨rest, out ++ [.not]⟩ := by
  rw [parse, Y1.parseNot]
  exact if_pos rfl

theorem parseAtom_lparen (k : Nat) (rest : List Token) (out : List BcNode) :
    parse .atom (k + 1) ⟨.lparen :: rest, out⟩ = (do
      let s ← parse .or k ⟨rest, out ++ [.lparen]⟩
      let s ← s.expect .rparen
      return s.put [.rparen]) := by
  simp only [parse]
  rw [Y1.parseAtom]
  exact if_pos rfl

/-- What is proved of a tree: the trees with a loop are read up to the loop. -/
def TreeParses : {n : Nonterminal} → Tree n → Prop
  | .or, t => LoopReads .and Y1.isOr t
  | .and, t => LoopReads .not Y1.isAnd t
  | .additive, t => LoopReads .multiplicative Y1.isAdditive t
  | .multiplicative, t => LoopReads .atom Y1.isMultiplicative t
  | .not, t | .cmp, t | .atom, t => TreeReads t

theorem TreeParses.reads {n : Nonterminal} {t : Tree n} (h : TreeParses t) : TreeReads t := by
  cases n with
  | or => exact LoopReads.reads h (fun k s => rfl) fun x hx => ⟨or_stop hx, Nat.le_of_succ_le hx⟩
  | and => exact LoopReads.reads h (fun k s => rfl) fun x hx => ⟨and_stop hx, Nat.le_of_succ_le hx⟩
  | additive => exact LoopReads.reads h (fun k s => rfl) fun x hx => ⟨additive_stop hx, Nat.le_of_succ_le hx⟩
  | multiplicative =>
      exact LoopReads.reads h (fun k s => rfl) fun x hx => ⟨multiplicative_stop hx, Nat.le_of_succ_le hx⟩
  | not | cmp | atom => exact h

theorem tree_parses {n : Nonterminal} (t : Tree n) : TreeParses t := by
  induction t with
  | orUnit e ih => exact loop_unit rfl rfl ih.reads
  | or l r ihl ihr => exact loop_op rfl rfl rfl (by decide : 5 ≤ 5) ihl ihr.reads
  | andUnit e ih => exact loop_unit rfl rfl ih.reads
  | and l r ihl ihr => exact loop_op rfl rfl rfl (by decide : 4 ≤ 4) ihl ihr.reads
  | notUnit e ih =>
      obtain ⟨x, hhead, hnot⟩ := tokens_head e
      intro rest out hfollows
      refine eventually_succ ?_
      filter_upwards [ih rest out hfollows] with k hk
      refine (if_neg ?_).trans hk
      change (e.tokens ++ rest).head? ≠ some .not
      rw [List.head?_append, hhead]
      exact fun h => hnot (by rintro ⟨⟩) (by rintro ⟨⟩) (by rintro ⟨⟩) (Option.some.inj h)
  | not e ih =>
      intro rest out hfollows
      refine eventually_succ ?_
      filter_upwards [ih rest (out ++ [.not]) hfollows] with k hk
      refine (parseNot_not k _ out).trans (hk.trans ?_)
      simp [Tree.emitted]
  | cmpUnit e ih =>
      refine cmp_reads [] [] (List.append_nil _).symm (List.append_nil _).symm ih.reads
        (fun rest h => Nat.le_of_succ_le h) ?_
      intro rest out hfollows
      filter_upwards with k
      refine (cmpRest_stop (s := ⟨rest, out⟩) hfollows).trans ?_
      rw [List.append_nil]
  | cmp op l r ihl ihr =>
      exact cmp_operand_reads [.cmp op] rfl rfl ihl.reads ihr.reads (fun _ => Nat.le_refl 3) fun _ _ _ => rfl
  | like l r ihl ihr =>
      exact cmp_operand_reads [.like] rfl rfl ihl.reads ihr.reads (fun _ => Nat.le_refl 3) fun _ _ _ => rfl
  | notLike l r ihl ihr =>
      exact cmp_operand_reads [.not, .like] rfl rfl ihl.reads ihr.reads (fun _ => Nat.le_refl 3)
        fun _ _ _ => rfl
  | isIn l v vs ihl =>
      refine cmp_reads (.isIn :: (.lparen :: v.token :: (vs.flatMap fun v => [Token.comma, v.token]) ++ [Token.rparen]))
        (.isIn :: .lparen :: .datum v.datum :: (vs.map fun v => BcNode.datum v.datum) ++ [BcNode.rparen]) ?_ ?_
        ihl.reads (fun _ _ => Nat.le_refl 3) fun rest out _ => inList_reads .isIn v vs rest out trivial
      · simp [Tree.tokens]
      · simp [Tree.emitted]
  | notIn l v vs ihl =>
      refine cmp_reads
        (.not :: .isIn :: (.lparen :: v.token :: (vs.flatMap fun v => [Token.comma, v.token]) ++ [Token.rparen]))
        (.notIn :: .lparen :: .datum v.datum :: (vs.map fun v => BcNode.datum v.datum) ++ [BcNode.rparen]) ?_ ?_
        ihl.reads (fun _ _ => Nat.le_refl 3) fun rest out _ => inList_reads .notIn v vs rest out trivial
      · simp [Tree.tokens]
      · simp [Tree.emitted]
  | between l a b ihl iha ihb =>
      refine cmp_reads (.between :: (a.tokens ++ .and :: b.tokens)) (.between :: a.emitted ++ b.emitted) ?_ ?_ ihl.reads
        (fun _ _ => Nat.le_refl 3)
        fun rest out hfollows => bounds_reads .between iha.reads ihb.reads rest out (Nat.le_of_succ_le hfollows)
      · simp [Tree.tokens]
      · simp [Tree.emitted]
  | notBetween l a b ihl iha ihb =>
      refine cmp_reads (.not :: .between :: (a.tokens ++ .and :: b.tokens)) (.notBetween :: a.emitted ++ b.emitted) ?_ ?_
        ihl.reads (fun _ _ => Nat.le_refl 3)
        fun rest out hfollows => bounds_reads .notBetween iha.reads ihb.reads rest out (Nat.le_of_succ_le hfollows)
      · simp [Tree.tokens]
      · simp [Tree.emitted]
  | additiveUnit e ih => exact loop_unit rfl rfl ih.reads
  | additive op l r ihl ihr => exact loop_op rfl rfl rfl (by decide : 2 ≤ 2) ihl ihr.reads
  | multiplicativeUnit e ih => exact loop_unit rfl rfl ih.reads
  | multiplicative op l r ihl ihr => exact loop_op rfl rfl rfl (by decide : 1 ≤ 1) ihl ihr.reads
  | value v =>
      intro rest out _
      refine eventually_succ (.of_forall fun k => ?_)
      refine (if_neg ?_).trans ?_
      · cases v <;> rintro ⟨⟩
      · cases v <;> rfl
  | paren e ih =>
      intro rest out _
      refine eventually_succ ?_
      filter_upwards [ih.reads (.rparen :: rest) (out ++ [.lparen]) (by decide : 6 ≤ 6)] with k hk
      have htext : (Tree.paren e).tokens ++ rest = .lparen :: (e.tokens ++ .rparen :: rest) := by simp [Tree.tokens]
      rw [htext, parseAtom_lparen, hk]
      simp [Bind.bind, Except.bind, expect_eq, State.put, Tree.emitted, pure, Except.pure]

/-! ### Commands -/

/-- `;` comes behind a command. -/
abbrev CommandReads (p : Nat → Parser Token BcNode) (ts : List Token) (ns : List BcNode) : Prop :=
  Consumes p (· = some .semicolon) ts ns

theorem clause_reads (clause : Option (Tree .or)) :
    CommandReads Y1.mbWhere (mbWhereTokens clause) (clauseNodes clause) := by
  intro rest out hrest
  cases clause with
  | none =>
      filter_upwards with k
      refine (if_neg ?_).trans (by rw [clauseNodes, List.append_nil]; rfl)
      rw [mbWhereTokens, List.nil_append, hrest]
      rintro ⟨⟩
  | some e =>
      have hfollows : Follows .or rest.head? := by
        rw [hrest]
        exact Nat.le_refl 6
      filter_upwards [(tree_parses e).reads rest (out ++ [.wher, .loopBegin 0]) hfollows] with k hk
      have hparse : ∀ ts, Y1.mbWhere k ⟨.wher :: ts, out⟩ = (do
          let s ← parse .or k ⟨ts, out ++ [.wher, .loopBegin 0]⟩
          return s.put [.loopEnd 0]) := fun ts => if_pos rfl
      rw [mbWhereTokens, List.cons_append, hparse, hk, clauseNodes]
      simp [Bind.bind, Except.bind, State.put, pure, Except.pure]

theorem ids_reads (name : List UInt8) (names : List (List UInt8)) :
    Consumes Y1.ids (· ≠ some .comma) (commaList (fun name => [.id name]) name names) ((name :: names).map .string) := by
  have hitem : ∀ name, Consumes (fun _ => Y1.name) (fun _ => True) [Token.id name] [BcNode.string name] :=
    fun name rest out _ => .of_forall fun k => rfl
  have hlist := list_reads Token.comma (fun name => [Token.id name]) (fun name => [BcNode.string name]) trivial
    hitem name names
  rw [← List.map_eq_flatMap] at hlist
  exact hlist.imp fun t ht => ⟨trivial, ht⟩

theorem decls_reads (decl : ColumnDecl) (decls : List ColumnDecl) :
    Consumes Y1.decls (· ≠ some .comma) (commaList ColumnDecl.tokens decl decls)
      ((decl :: decls).flatMap ColumnDecl.emitted) := by
  have hitem : ∀ decl : ColumnDecl, Consumes (fun _ => Y1.decl) (fun _ => True) decl.tokens decl.emitted := by
    rintro ⟨name, type⟩ rest out _
    refine .of_forall fun k => ?_
    cases type <;> exact congrArg Except.ok (congrArg _ (List.append_assoc _ _ _))
  have hlist := list_reads Token.comma ColumnDecl.tokens ColumnDecl.emitted trivial hitem decl decls
  exact hlist.imp fun t ht => ⟨trivial, ht⟩

/-- **Every command is read.** -/
theorem cmd_reads (catalog : Bool) (c : Cmd) : CommandReads (Y1.cmd catalog) c.tokens (c.emitted catalog) := by
  intro rest out hrest
  cases c with
  | createUser name | createCatalog name | startTransaction | commit | rollback => exact .of_forall fun k => rfl
  | createSchema name =>
      refine .of_forall fun k => ?_
      cases catalog with
      | true => rfl
      | false => exact congrArg (fun out => Except.ok (State.mk rest out)) (List.append_nil out).symm
  | createTable schema table decl decls =>
      have hcomma : (Token.rparen :: rest).head? ≠ some .comma := by rintro ⟨⟩
      have htext : (Cmd.createTable schema table decl decls).tokens ++ rest
          = .create :: .table :: (tableName schema table
            ++ .lparen :: (commaList ColumnDecl.tokens decl decls ++ .rparen :: rest)) := by simp [Cmd.tokens]
      rw [htext]
      cases catalog with
      | true =>
          filter_upwards [decls_reads decl decls (.rparen :: rest)
            (out ++ [.create, .table, .string schema, .string table, .arrayBegin]) hcomma] with k hk
          change (Y1.decls k ⟨commaList ColumnDecl.tokens decl decls ++ .rparen :: rest,
            out ++ [.create, .table, .string schema, .string table, .arrayBegin]⟩ >>= _) = _
          rw [hk]
          simp [Bind.bind, Except.bind, expect_eq, State.put, pure, Except.pure, Cmd.emitted]
      | false =>
          filter_upwards [decls_reads decl decls (.rparen :: rest) out hcomma] with k hk
          change (Y1.decls k ⟨commaList ColumnDecl.tokens decl decls ++ .rparen :: rest, out⟩ >>= _) = _
          rw [hk]
          rfl
  | insert schema table name names value values =>
      obtain ⟨behind, hbehind⟩ : ∃ behind, behind =
          (value.token :: values.flatMap fun v => [.comma, v.token]) ++ Token.rparen :: rest := ⟨_, rfl⟩
      have htext : (Cmd.insert schema table name names value values).tokens ++ rest
          = .insert :: .into :: (tableName schema table ++ .lparen :: (commaList (fun name => [.id name]) name names
            ++ .rparen :: .values :: .lparen :: behind)) := by
        simp [Cmd.tokens, commaList, hbehind]
      rw [htext]
      filter_upwards [ids_reads name names (.rparen :: .values :: .lparen :: behind)
          (out ++ [.insert, .string schema, .string table, .arrayBegin]) (by rintro ⟨⟩),
        values_reads value values (.rparen :: rest)
          (out ++ [.insert, .string schema, .string table, .arrayBegin] ++ (name :: names).map .string ++ [.arrayEnd]
            ++ [.arrayBegin]) (by rintro ⟨⟩)] with k hids hvalues
      change (Y1.ids k ⟨commaList (fun name => [.id name]) name names ++ .rparen :: .values :: .lparen :: behind,
        out ++ [.insert, .string schema, .string table, .arrayBegin]⟩ >>= _) = _
      rw [hids]
      change (Y1.values k ⟨behind, out ++ [.insert, .string schema, .string table, .arrayBegin]
        ++ (name :: names).map .string ++ [.arrayEnd] ++ [.arrayBegin]⟩ >>= _) = _
      rw [hbehind, hvalues]
      simp [Bind.bind, Except.bind, expect_eq, State.put, pure, Except.pure, Cmd.emitted]
  | row cmd clause =>
      cases cmd with
      | delete schema table =>
          have htext : (Cmd.row (.delete schema table) clause).tokens ++ rest
              = .delete :: .fro :: (tableName schema table ++ (mbWhereTokens clause ++ rest)) := by simp [Cmd.tokens]
          filter_upwards [clause_reads clause rest (out ++ [.delete, .string schema, .string table]) hrest] with k hk
          rw [htext]
          refine Eq.trans ?_ (hk.trans ?_)
          · rfl
          · rw [List.append_assoc]
            exact congrArg (fun ns => Except.ok (State.mk rest (out ++ ns)))
              (statement_eq (.delete schema table) clause).symm
      | select schema table name names =>
          have htext : (Cmd.row (.select schema table name names) clause).tokens ++ rest
              = .select :: (commaList (fun name => [.id name]) name names
                ++ .fro :: (tableName schema table ++ (mbWhereTokens clause ++ rest))) := by simp [Cmd.tokens]
          rw [htext]
          filter_upwards [ids_reads name names (.fro :: (tableName schema table ++ (mbWhereTokens clause ++ rest)))
              (out ++ [.select, .arrayBegin]) (by rintro ⟨⟩),
            clause_reads clause rest (out ++ [.select, .arrayBegin] ++ (name :: names).map .string ++ [.arrayEnd]
              ++ [.string schema, .string table]) hrest] with k hids hclause
          change (Y1.ids k ⟨commaList (fun name => [.id name]) name names
            ++ .fro :: (tableName schema table ++ (mbWhereTokens clause ++ rest)), out ++ [.select, .arrayBegin]⟩
              >>= _) = _
          rw [hids]
          refine Eq.trans ?_ (hclause.trans ?_)
          · rfl
          · refine congrArg (fun ns => Except.ok (State.mk rest ns)) ?_
            have hstatement := statement_eq (.select schema table name names) clause
            rw [Cmd.emitted, hstatement]
            simp [Execute.RowCmd.tokens]

end Complete

/-! ### The fuel of a command -/

section Fuel

variable {fuel fuel' : Nat}

theorem items_extends (item : Parser Token BcNode) (hfuel : fuel ≤ fuel') :
    Extends (list .comma item fuel) (list .comma item fuel') := list_extends Token.comma (fun _ => .refl _) hfuel

theorem inList_extends (node : BcNode) (hfuel : fuel ≤ fuel') :
    Extends (Y1.inList fuel node) (Y1.inList fuel' node) := fun _ =>
  (Below.refl _).bind fun _ => (items_extends Y1.value hfuel _).bind fun _ => .refl _

theorem bounds_extends {additive additive' : Parser Token BcNode} (node : BcNode) (h : Extends additive additive') :
    Extends (Y1.bounds additive node) (Y1.bounds additive' node) := fun _ =>
  (h _).bind fun _ => (Below.refl _).bind fun _ => h _

theorem cmpRest_extends {additive additive' : Parser Token BcNode} (h : Extends additive additive')
    (hfuel : fuel ≤ fuel') : Extends (Y1.cmpRest fuel additive) (Y1.cmpRest fuel' additive') := by
  intro s
  unfold Y1.cmpRest
  split
  · exact h _
  · exact h _
  · exact inList_extends _ hfuel _
  · exact bounds_extends _ h _
  · split
    · exact h _
    · exact inList_extends _ hfuel _
    · exact bounds_extends _ h _
    · exact .refl _
  · exact .refl _

theorem parse_extends (n : Nonterminal) (hfuel : fuel ≤ fuel') : Extends (parse n fuel) (parse n fuel') := by
  induction fuel generalizing fuel' n with
  | zero =>
      intro s hne
      cases n <;> exact absurd rfl hne
  | succ fuel ih =>
      obtain ⟨fuel', rfl⟩ := Nat.exists_eq_add_of_le' (Nat.le_trans (Nat.le_add_left 1 fuel) hfuel)
      have hle := Nat.le_of_succ_le_succ hfuel
      intro s
      cases n with
      | or => exact (ih .and hle s).bind (operators_extends _ (ih .and hle) hle)
      | and => exact (ih .not hle s).bind (operators_extends _ (ih .not hle) hle)
      | not =>
          change Below (if _ then _ else _) (if _ then _ else _)
          split
          · exact ih .not hle _
          · exact ih .cmp hle _
      | cmp => exact (ih .additive hle s).bind (cmpRest_extends (ih .additive hle) hle)
      | additive => exact (ih .multiplicative hle s).bind (operators_extends _ (ih .multiplicative hle) hle)
      | multiplicative => exact (ih .atom hle s).bind (operators_extends _ (ih .atom hle) hle)
      | atom =>
          change Below (if _ then _ else _) (if _ then _ else _)
          split
          · exact (ih .or hle _).bind fun _ => .refl _
          · exact .refl _

theorem mbWhere_extends (hfuel : fuel ≤ fuel') : Extends (Y1.mbWhere fuel) (Y1.mbWhere fuel') := by
  intro s
  unfold Y1.mbWhere
  split
  · exact (parse_extends .or hfuel _).bind fun _ => .refl _
  · exact .refl _

theorem cmd_extends (catalog : Bool) (hfuel : fuel ≤ fuel') : Extends (Y1.cmd catalog fuel) (Y1.cmd catalog fuel') := by
  have hids := items_extends Y1.name hfuel
  have hvalues := items_extends Y1.value hfuel
  have hdecls := items_extends Y1.decl hfuel
  intro s
  unfold Y1.cmd
  split
  · unfold Y1.create
    split
    · exact .refl _
    · exact .refl _
    · exact .refl _
    · refine (Below.refl _).bind fun _ => (Below.refl _).bind fun _ => ?_
      exact (hdecls _).bind fun _ => .refl _
    · exact .refl _
  · exact .refl _
  · exact .refl _
  · exact .refl _
  · refine (Below.refl _).bind fun _ => (Below.refl _).bind fun _ => (Below.refl _).bind fun _ => ?_
    refine (hids _).bind fun _ => (Below.refl _).bind fun _ => ?_
    refine (Below.refl _).bind fun _ => (Below.refl _).bind fun _ => ?_
    exact (hvalues _).bind fun _ => .refl _
  · exact (Below.refl _).bind fun _ => (Below.refl _).bind fun _ => mbWhere_extends hfuel _
  · refine (hids _).bind fun _ => (Below.refl _).bind fun _ => (Below.refl _).bind fun _ => ?_
    exact mbWhere_extends hfuel _
  · exact .refl _

end Fuel

/-- **A command with its `;`.** It is read as it stands in the grammar. -/
theorem command_eq (catalog : Bool) (c : Cmd) (rest : List Token) (out : List BcNode) :
    Y1.command catalog ⟨c.tokens ++ .semicolon :: rest, out⟩ = .ok ⟨rest, out ++ c.emitted catalog⟩ := by
  have hspec := cmd_spec catalog (7 * (c.tokens ++ .semicolon :: rest).length + 8) ⟨c.tokens ++ .semicolon :: rest, out⟩
  have hcmd : Y1.cmd catalog (7 * (c.tokens ++ .semicolon :: rest).length + 8) ⟨c.tokens ++ .semicolon :: rest, out⟩
      = .ok ⟨.semicolon :: rest, out ++ c.emitted catalog⟩ := by
    refine eq_of_eventually (fun k k' => cmd_extends catalog) (fun hdiverges => ?_)
      (cmd_reads catalog c (.semicolon :: rest) out rfl)
    rw [hdiverges] at hspec
    exact hspec (Nat.le_refl _)
  rw [Y1.command, hcmd]
  exact expect_eq .semicolon rest (out ++ c.emitted catalog)

/-- What `cmd ';'` comes to: a command, or a token that is out of place where there is none. -/
theorem command_cases (catalog : Bool) (s : Y1) :
    (∃ c : Cmd, ∃ rest, s.tokens = c.tokens ++ .semicolon :: rest
        ∧ Y1.command catalog s = .ok ⟨rest, s.out ++ c.emitted catalog⟩)
      ∨ (∀ c : Cmd, ∀ rest, s.tokens ≠ c.tokens ++ .semicolon :: rest)
        ∧ ∃ ts s', s.tokens = ts ++ s'.tokens ∧ .semicolon ∉ ts ∧ Y1.command catalog s = .error (.misplaced s') := by
  have hnone : (∀ s', Y1.command catalog s ≠ .ok s') → ∀ c : Cmd, ∀ rest, s.tokens ≠ c.tokens ++ .semicolon :: rest := by
    intro hne c rest htokens
    refine hne ⟨rest, s.out ++ c.emitted catalog⟩ ?_
    rw [← command_eq catalog c rest s.out, ← htokens]
  have hspec := cmd_spec catalog (7 * s.tokens.length + 8) s
  cases hcmd : Y1.cmd catalog (7 * s.tokens.length + 8) s with
  | error halt =>
      rw [hcmd] at hspec
      have hcommand : Y1.command catalog s = .error halt := by
        rw [Y1.command, hcmd]
        rfl
      cases halt with
      | diverges => exact absurd (Nat.le_refl _) hspec
      | misplaced s' =>
          obtain ⟨ts, ns, hmoves, hstop⟩ := hspec
          refine .inr ⟨hnone fun s'' h => ?_, ts, s', hmoves.tokens, hstop, hcommand⟩
          rw [hcommand] at h
          cases h
  | ok s' =>
      rw [hcmd] at hspec
      obtain ⟨ts, ns, hmoves, hstop, c, rfl, rfl⟩ := hspec
      have hcommand : Y1.command catalog s = s'.expect .semicolon := by
        rw [Y1.command, hcmd]
        rfl
      rw [State.expect] at hcommand
      split at hcommand
      · next hhead =>
        obtain ⟨rest, hrest⟩ := List.head?_eq_some_iff.mp hhead
        refine .inl ⟨c, rest, by rw [hmoves.tokens, hrest], ?_⟩
        rw [hcommand, State.shift, hrest, hmoves.out]
        rfl
      · refine .inr ⟨hnone fun s'' h => ?_, c.tokens, s', hmoves.tokens, hstop, hcommand⟩
        rw [hcommand] at h
        cases h

end Scroller.Hquery

import Scroller.FirstParser

/-!
# What the first parser accepts

Behind what the first parser accepts stands a command of the grammar, and the bytecode is that of the command. Where it
stops it has not come to a `;`.
-/

namespace Scroller.Hquery

open Descent

section Sound

variable {enough : Prop} {s s₁ : Y1} {ts : List Token} {ns : List BcNode} {L : List Token → List BcNode → Prop}

theorem moves_put {nodes : List BcNode} {token : Token} (h : s.tokens.head? = some token) :
    Moves s (s.shift.put nodes) [token] nodes := (Moves.shift h).then_put nodes

theorem not_stop {token : Token} (h : token ≠ .semicolon) : Token.semicolon ∉ [token] :=
  List.mem_singleton.not.mpr h.symm

theorem not_stop_append {ts' : List Token} (h : Token.semicolon ∉ ts) (h' : Token.semicolon ∉ ts') :
    Token.semicolon ∉ ts ++ ts' := fun hmem => (List.mem_append.mp hmem).elim h h'

/-- A token that has to come, behind something that was read. -/
theorem expect_next {token : Token} {f : Parser Token BcNode} (hmoves : Moves s s₁ ts ns)
    (hstop : Token.semicolon ∉ ts) (htoken : token ≠ .semicolon)
    (hf : ∀ s', Moves s s' (ts ++ [token]) ns → Token.semicolon ∉ ts ++ [token] →
      Spec .semicolon L enough s (f s')) : Spec .semicolon L enough s (s₁.expect token >>= f) := by
  refine (expect_spec htoken s₁).next hmoves hstop ?_
  rintro s' _ _ hmoves' hstop' ⟨rfl, rfl⟩
  rw [List.append_nil] at hmoves'
  exact hf s' hmoves' hstop'

theorem ident_next {f : Y1 × List UInt8 → Except (Halt Token BcNode) Y1} (hmoves : Moves s s₁ ts ns)
    (hstop : Token.semicolon ∉ ts)
    (hf : ∀ s' str, Moves s s' (ts ++ [.id str]) ns → Token.semicolon ∉ ts ++ [.id str] →
      Spec .semicolon L enough s (f (s', str))) : Spec .semicolon L enough s (Y1.ident s₁ >>= f) := by
  unfold Y1.ident
  split
  · next str hhead =>
    have hmoves' := hmoves.trans (.shift hhead)
    rw [List.append_nil] at hmoves'
    exact hf _ str hmoves' (not_stop_append hstop (not_stop nofun))
  · exact .misplaced hmoves hstop

theorem table_next {f : Y1 × List UInt8 × List UInt8 → Except (Halt Token BcNode) Y1} (hmoves : Moves s s₁ ts ns)
    (hstop : Token.semicolon ∉ ts)
    (hf : ∀ s' schema table, Moves s s' (ts ++ tableName schema table) ns →
      Token.semicolon ∉ ts ++ tableName schema table → Spec .semicolon L enough s (f (s', schema, table))) :
    Spec .semicolon L enough s (Y1.table s₁ >>= f) := by
  rw [Y1.table, bind_assoc]
  refine ident_next hmoves hstop fun s₂ schema hmoves hstop => ?_
  rw [bind_assoc]
  refine expect_next hmoves hstop nofun fun s₃ hmoves hstop => ?_
  rw [bind_assoc]
  refine ident_next hmoves hstop fun s₄ table hmoves hstop => ?_
  rw [List.append_assoc, List.append_assoc] at hmoves hstop
  exact hf s₄ schema table hmoves hstop

/-! ### Items of lists -/

theorem value_spec (s : Y1) :
    Spec .semicolon (Of (fun v : Value => [v.token]) fun v => [.datum v.datum]) enough s (Y1.value s) := by
  unfold Y1.value
  split
  · next integer hhead => exact .done (moves_put hhead) (not_stop nofun) ⟨.vinteger integer, rfl, rfl⟩
  · next str hhead => exact .done (moves_put hhead) (not_stop nofun) ⟨.string str, rfl, rfl⟩
  · next str hhead => exact .done (moves_put hhead) (not_stop nofun) ⟨.id str, rfl, rfl⟩
  · exact .misplaced (.refl s) List.not_mem_nil

theorem name_spec (s : Y1) :
    Spec .semicolon (Of (fun name => [Token.id name]) fun name => [.string name]) enough s (Y1.name s) := by
  refine ident_next (.refl s) List.not_mem_nil fun s' str hmoves hstop => ?_
  exact .done (hmoves.then_put _) hstop ⟨str, rfl, rfl⟩

theorem type_spec (s : Y1) : Spec .semicolon (Of ColumnType.tokens ColumnType.emitted) enough s (Y1.type s) := by
  have hchar : ∀ {token : Token} (type : Int64 → ColumnType),
      (∀ size, (type size).tokens = [token, .lparen, .vinteger size, .rparen]) →
      (∀ size, (type size).emitted = [.size size.toUInt64, .type .char]) → token = .character ∨ token = .char →
      s.tokens.head? = some token → Spec .semicolon (Of ColumnType.tokens ColumnType.emitted) enough s (Y1.type s) := by
    intro token type htokens hemitted htoken hhead
    have hread : Token.semicolon ∉ [token] := not_stop (by rcases htoken with rfl | rfl <;> rintro ⟨⟩)
    unfold Y1.type
    rcases htoken with rfl | rfl
    all_goals
      rw [hhead]
      refine expect_next (.shift hhead) hread (by rintro ⟨⟩) fun s₁ hmoves hstop => ?_
      split
      · next size hhead₁ =>
        refine expect_next (hmoves.trans (.shift hhead₁)) (not_stop_append hstop (not_stop (by rintro ⟨⟩)))
          (by rintro ⟨⟩) fun s₂ hmoves hstop => ?_
        exact .done (hmoves.then_put _) hstop ⟨type size, (htokens size).symm, (hemitted size).symm⟩
      · exact .misplaced hmoves hstop
  by_cases hcharacter : s.tokens.head? = some .character
  · exact hchar .character (fun _ => rfl) (fun _ => rfl) (.inl rfl) hcharacter
  by_cases hshort : s.tokens.head? = some .char
  · exact hchar .char (fun _ => rfl) (fun _ => rfl) (.inr rfl) hshort
  unfold Y1.type
  split
  · next hhead => exact .done (moves_put hhead) (not_stop (by rintro ⟨⟩)) ⟨.smallint, rfl, rfl⟩
  · next hhead => exact .done (moves_put hhead) (not_stop (by rintro ⟨⟩)) ⟨.integer, rfl, rfl⟩
  · next hhead => exact .done (moves_put hhead) (not_stop (by rintro ⟨⟩)) ⟨.bigint, rfl, rfl⟩
  · next hhead => exact absurd hhead hcharacter
  · next hhead => exact absurd hhead hshort
  · exact .misplaced (.refl s) List.not_mem_nil

theorem decl_spec (s : Y1) : Spec .semicolon (Of ColumnDecl.tokens ColumnDecl.emitted) enough s (Y1.decl s) := by
  refine ident_next (.refl s) List.not_mem_nil fun s₁ name hmoves hstop => ?_
  refine (type_spec s₁).next hmoves hstop ?_
  rintro s₂ _ _ hmoves hstop ⟨type, rfl, rfl⟩
  exact .done (hmoves.then_put _) hstop ⟨⟨name, type⟩, rfl, rfl⟩

/-! ### Expressions -/

/-- The sentences of a left side. -/
abbrev Sentence (n : Nonterminal) : List Token → List BcNode → Prop := Of (Tree.tokens (n := n)) Tree.emitted

theorem values_spec {fuel : Nat} (hfuel : enough → s.tokens.length < fuel) :
    Spec .semicolon (Of (fun l : Value × List Value => l.1.token :: l.2.flatMap fun v => [.comma, v.token])
      fun l => .datum l.1.datum :: l.2.map fun v => .datum v.datum) enough s (Y1.values fuel s) := by
  refine (list_spec (nofun : Token.comma ≠ .semicolon) (fun s' _ => value_spec s') hfuel).imp (fun ts ns h => ?_) id
  obtain ⟨v, vs, rfl, rfl⟩ := h.of
  exact ⟨(v, vs), rfl, congrArg _ List.map_eq_flatMap.symm⟩

theorem inList_spec {fuel : Nat} (node : BcNode) (hfuel : enough → s.tokens.length < fuel) :
    Spec .semicolon
      (Of (fun l : Value × List Value => .lparen :: l.1.token :: (l.2.flatMap fun v => [.comma, v.token]) ++ [.rparen])
        fun l => node :: .lparen :: .datum l.1.datum :: (l.2.map fun v => .datum v.datum) ++ [.rparen])
      enough s (Y1.inList fuel node s) := by
  refine expect_next (.refl s) List.not_mem_nil nofun fun s₁ hmoves hstop => ?_
  have hput := hmoves.then_put [node, .lparen]
  have hlength := hput.length
  refine (values_spec fun h => ?_).next hput hstop ?_
  · have := hfuel h
    omega
  · rintro s₂ _ _ hmoves hstop ⟨l, rfl, rfl⟩
    refine expect_next hmoves hstop nofun fun s₃ hmoves hstop => ?_
    exact .done (hmoves.then_put _) hstop ⟨l, rfl, rfl⟩

theorem bounds_spec {additive : Parser Token BcNode} (node : BcNode)
    (hadditive : ∀ s' : Y1, s'.tokens.length ≤ s.tokens.length →
      Spec .semicolon (Sentence .additive) enough s' (additive s')) :
    Spec .semicolon (Of (fun l : Tree .additive × Tree .additive => l.1.tokens ++ .and :: l.2.tokens)
      fun l => node :: l.1.emitted ++ l.2.emitted) enough s (Y1.bounds additive node s) := by
  refine (hadditive (s.put [node]) (Nat.le_refl _)).next (.put s [node]) List.not_mem_nil ?_
  rintro s₁ _ _ hmoves hstop ⟨a, rfl, rfl⟩
  refine expect_next hmoves hstop nofun fun s₂ hmoves hstop => ?_
  have hlength := hmoves.length
  refine (hadditive s₂ (by omega)).behind hmoves hstop ?_
  rintro _ _ ⟨b, rfl, rfl⟩
  exact ⟨(a, b), by simp, rfl⟩

/-- What may follow the first operand of `cmp_expr`. -/
theorem cmpRest_spec {fuel : Nat} {additive : Parser Token BcNode} {l : Tree .additive}
    (hadditive : ∀ s' : Y1, s'.tokens.length < s.tokens.length →
      Spec .semicolon (Sentence .additive) enough s' (additive s')) (hfuel : enough → s.tokens.length < fuel)
    (hmoves : Moves s s₁ l.tokens l.emitted) (hstop : Token.semicolon ∉ l.tokens) :
    Spec .semicolon (Sentence .cmp) enough s (Y1.cmpRest fuel additive s₁) := by
  have hlength := hmoves.length
  have hone : ∀ {s₂ : Y1} {ts : List Token} {ns : List BcNode} (op : Tree .additive → Tree .cmp), Moves s₁ s₂ ts ns →
      Token.semicolon ∉ ts → ts ≠ [] → (∀ r, (op r).tokens = l.tokens ++ ts ++ r.tokens) →
      (∀ r, (op r).emitted = l.emitted ++ ns ++ r.emitted) →
      Spec .semicolon (Sentence .cmp) enough s (additive s₂) := by
    intro s₂ ts ns op hread hnot hne htokens hemitted
    have hshorter := hread.length
    have hpos := List.length_pos_of_ne_nil hne
    refine (hadditive s₂ (by omega)).behind (hmoves.trans hread) (not_stop_append hstop hnot) ?_
    rintro _ _ ⟨r, rfl, rfl⟩
    exact ⟨op r, (htokens r).symm, (hemitted r).symm⟩
  have hin : ∀ {s₂ : Y1} {ts : List Token} (node : BcNode) (op : Value → List Value → Tree .cmp), Moves s₁ s₂ ts [] →
      Token.semicolon ∉ ts → (∀ v vs, (op v vs).tokens = l.tokens ++ ts ++
        (.lparen :: v.token :: (vs.flatMap fun v => [.comma, v.token]) ++ [.rparen])) →
      (∀ v vs, (op v vs).emitted = l.emitted ++
        (node :: .lparen :: .datum v.datum :: (vs.map fun v => .datum v.datum) ++ [.rparen])) →
      Spec .semicolon (Sentence .cmp) enough s (Y1.inList fuel node s₂) := by
    intro s₂ ts node op hread hnot htokens hemitted
    have hshorter := hread.length
    refine (inList_spec node fun h => ?_).behind (hmoves.trans hread) (not_stop_append hstop hnot) ?_
    · have := hfuel h
      omega
    · rintro _ _ ⟨⟨v, vs⟩, rfl, rfl⟩
      exact ⟨op v vs, (htokens v vs).symm, by rw [List.append_nil]; exact (hemitted v vs).symm⟩
  have hbetween : ∀ {s₂ : Y1} {ts : List Token} (node : BcNode) (op : Tree .additive → Tree .additive → Tree .cmp),
      Moves s₁ s₂ ts [] → Token.semicolon ∉ ts → ts ≠ [] →
      (∀ a b, (op a b).tokens = l.tokens ++ ts ++ (a.tokens ++ .and :: b.tokens)) →
      (∀ a b, (op a b).emitted = l.emitted ++ (node :: a.emitted ++ b.emitted)) →
      Spec .semicolon (Sentence .cmp) enough s (Y1.bounds additive node s₂) := by
    intro s₂ ts node op hread hnot hne htokens hemitted
    have hshorter := hread.length
    have hpos := List.length_pos_of_ne_nil hne
    refine (bounds_spec node fun s' hle => hadditive s' (by omega)).behind (hmoves.trans hread)
      (not_stop_append hstop hnot) ?_
    rintro _ _ ⟨⟨a, b⟩, rfl, rfl⟩
    exact ⟨op a b, (htokens a b).symm, by rw [List.append_nil]; exact (hemitted a b).symm⟩
  unfold Y1.cmpRest
  split
  · next op hhead =>
    exact hone (.cmp op l) (moves_put hhead) (not_stop nofun) (List.cons_ne_nil _ _) (fun r => by simp [Tree.tokens])
      fun r => by simp [Tree.emitted]
  · next hhead =>
    exact hone (.like l) (moves_put hhead) (not_stop nofun) (List.cons_ne_nil _ _) (fun r => by simp [Tree.tokens])
      fun r => by simp [Tree.emitted]
  · next hhead =>
    exact hin .isIn (.isIn l) (.shift hhead) (not_stop nofun) (fun v vs => by simp [Tree.tokens])
      fun v vs => by simp [Tree.emitted]
  · next hhead =>
    exact hbetween .between (.between l) (.shift hhead) (not_stop nofun) (List.cons_ne_nil _ _)
      (fun a b => by simp [Tree.tokens]) fun a b => by simp [Tree.emitted]
  · next hhead =>
    have hnot : Token.semicolon ∉ [Token.not] := not_stop nofun
    split
    · next hhead₁ =>
      exact hone (.notLike l) ((Moves.shift hhead).trans (moves_put hhead₁)) (not_stop_append hnot (not_stop nofun))
        (List.cons_ne_nil _ _) (fun r => by simp [Tree.tokens]) fun r => by simp [Tree.emitted]
    · next hhead₁ =>
      exact hin .notIn (.notIn l) ((Moves.shift hhead).trans (.shift hhead₁)) (not_stop_append hnot (not_stop nofun))
        (fun v vs => by simp [Tree.tokens]) fun v vs => by simp [Tree.emitted]
    · next hhead₁ =>
      exact hbetween .notBetween (.notBetween l) ((Moves.shift hhead).trans (.shift hhead₁))
        (not_stop_append hnot (not_stop nofun)) (List.cons_ne_nil _ _) (fun a b => by simp [Tree.tokens])
        fun a b => by simp [Tree.emitted]
    · exact .misplaced (hmoves.trans (.shift hhead)) (not_stop_append hstop hnot)
  · exact .done hmoves hstop ⟨.cmpUnit l, rfl, rfl⟩

/-- The parser of a left side. -/
def parse : Nonterminal → Nat → Parser Token BcNode
  | .or => Y1.parseOr
  | .and => Y1.parseAnd
  | .not => Y1.parseNot
  | .cmp => Y1.parseCmp
  | .additive => Y1.parseAdditive
  | .multiplicative => Y1.parseMultiplicative
  | .atom => Y1.parseAtom

/-- How many left sides may stand above the first token of a left side. -/
def height : Nonterminal → Nat
  | .or => 7
  | .and => 6
  | .not => 5
  | .cmp => 4
  | .additive => 3
  | .multiplicative => 2
  | .atom => 1

/-- The rules with a loop: a first operand, and operators with operands behind it. -/
theorem loop_spec {n m : Nonterminal} {op? : Token → Option BcNode} {fuel : Nat} (unit : Tree m → Tree n)
    (hunit : ∀ t, (unit t).tokens = t.tokens ∧ (unit t).emitted = t.emitted) (hop : op? .semicolon = none)
    (happend : ∀ (l : Tree n) (r : Tree m) token node, op? token = some node →
      ∃ t : Tree n, t.tokens = l.tokens ++ token :: r.tokens ∧ t.emitted = l.emitted ++ node :: r.emitted)
    (ih : ∀ s' : Y1, Spec .semicolon (Sentence m) (7 * s'.tokens.length + height m ≤ fuel) s' (parse m fuel s'))
    (hheight : height n = height m + 1) :
    Spec .semicolon (Sentence n) (7 * s.tokens.length + height n ≤ fuel + 1) s
      (parse m fuel s >>= operators op? (parse m fuel) fuel) := by
  refine (ih s).bind (by omega) ?_
  rintro s₁ _ _ hmoves hstop ⟨t, rfl, rfl⟩
  have hlength := hmoves.length
  have hfirst : Sentence n t.tokens t.emitted := ⟨unit t, (hunit t).1.symm, (hunit t).2.symm⟩
  refine operators_spec hop (fun s' hlt => (ih s').imp (fun _ _ h => h) (by omega)) ?_ hmoves hstop hfirst ?_
  · rintro _ _ token node _ _ ⟨l, rfl, rfl⟩ hnode ⟨r, rfl, rfl⟩
    obtain ⟨t', htokens, hemitted⟩ := happend l r token node hnode
    exact ⟨t', htokens.symm, hemitted.symm⟩
  · intro h
    have hpos : 0 < height m := by cases m <;> decide
    omega

theorem parse_spec (fuel : Nat) (n : Nonterminal) (s : Y1) :
    Spec .semicolon (Sentence n) (7 * s.tokens.length + height n ≤ fuel) s (parse n fuel s) := by
  induction fuel generalizing n s with
  | zero =>
      have hdiverges : parse n 0 s = .error .diverges := by cases n <;> rfl
      rw [hdiverges]
      intro h
      cases n <;> exact absurd h (Nat.not_succ_le_zero _)
  | succ fuel ih =>
      cases n with
      | or =>
          refine loop_spec .orUnit (fun _ => ⟨rfl, rfl⟩) rfl ?_ (ih .and) rfl
          intro l r token node hnode
          cases token <;> cases hnode
          exact ⟨.or l r, rfl, rfl⟩
      | and =>
          refine loop_spec .andUnit (fun _ => ⟨rfl, rfl⟩) rfl ?_ (ih .not) rfl
          intro l r token node hnode
          cases token <;> cases hnode
          exact ⟨.and l r, rfl, rfl⟩
      | not =>
          change Spec _ _ _ s (if _ then _ else _)
          split
          · next hhead =>
            have hmoves : Moves s (s.shift.put [BcNode.not]) [.not] [.not] := moves_put hhead
            have hlength := hmoves.length
            rw [List.length_singleton] at hlength
            refine ((ih .not _).imp (fun _ _ h => h) ?_).behind hmoves (not_stop nofun) ?_
            · change 7 * s.tokens.length + 5 ≤ fuel + 1 → 7 * _ + 5 ≤ fuel
              omega
            · rintro _ _ ⟨t, rfl, rfl⟩
              exact ⟨.not t, rfl, rfl⟩
          · refine (ih .cmp s).imp ?_ Nat.le_of_succ_le_succ
            rintro _ _ ⟨t, rfl, rfl⟩
            exact ⟨.notUnit t, rfl, rfl⟩
      | cmp =>
          refine (ih .additive s).bind Nat.le_of_succ_le_succ ?_
          rintro s₁ _ _ hmoves hstop ⟨l, rfl, rfl⟩
          refine cmpRest_spec (fun s' hlt => (ih .additive s').imp (fun _ _ h => h) ?_) ?_ hmoves hstop
          · change 7 * s.tokens.length + 4 ≤ fuel + 1 → 7 * _ + 3 ≤ fuel
            omega
          · change 7 * s.tokens.length + 4 ≤ fuel + 1 → _
            omega
      | additive =>
          refine loop_spec .additiveUnit (fun _ => ⟨rfl, rfl⟩) rfl ?_ (ih .multiplicative) rfl
          intro l r token node hnode
          cases token with
          | additive op =>
              cases hnode
              exact ⟨.additive op l r, rfl, rfl⟩
          | _ => cases hnode
      | multiplicative =>
          refine loop_spec .multiplicativeUnit (fun _ => ⟨rfl, rfl⟩) rfl ?_ (ih .atom) rfl
          intro l r token node hnode
          cases token with
          | multiplicative op =>
              cases hnode
              exact ⟨.multiplicative op l r, rfl, rfl⟩
          | _ => cases hnode
      | atom =>
          change Spec _ _ _ s (if _ then _ else _)
          split
          · next hhead =>
            have hmoves : Moves s (s.shift.put [BcNode.lparen]) [.lparen] [.lparen] := moves_put hhead
            have hlength := hmoves.length
            rw [List.length_singleton] at hlength
            refine ((ih .or _).imp (fun _ _ h => h) ?_).next hmoves (not_stop nofun) ?_
            · change 7 * s.tokens.length + 1 ≤ fuel + 1 → 7 * _ + 7 ≤ fuel
              omega
            · rintro s₁ _ _ hmoves hstop ⟨t, rfl, rfl⟩
              refine expect_next hmoves hstop nofun fun s₂ hmoves hstop => ?_
              exact .done (hmoves.then_put _) hstop ⟨.paren t, rfl, rfl⟩
          · refine (value_spec s).imp ?_ id
            rintro _ _ ⟨v, rfl, rfl⟩
            exact ⟨.value v, rfl, rfl⟩

/-! ### Commands -/

/-- The bytecode of `mb_where`. -/
def clauseNodes : Option (Tree .or) → List BcNode
  | none => []
  | some e => [.wher, .loopBegin 0] ++ e.emitted ++ [.loopEnd 0]

theorem statement_eq (cmd : Execute.RowCmd) (clause : Option (Tree .or)) :
    cmd.statement clause = cmd.tokens ++ clauseNodes clause := by
  cases clause with
  | none => exact (List.append_nil _).symm
  | some e => simp [Execute.RowCmd.statement, Execute.RowCmd.bytecode, clauseNodes]

theorem mbWhere_spec {fuel : Nat} (hfuel : enough → 7 * s.tokens.length + 7 ≤ fuel) :
    Spec .semicolon (Of mbWhereTokens clauseNodes) enough s (Y1.mbWhere fuel s) := by
  unfold Y1.mbWhere
  split
  · next hhead =>
    have hmoves : Moves s (s.shift.put [BcNode.wher, .loopBegin 0]) [.wher] [.wher, .loopBegin 0] := moves_put hhead
    have hlength := hmoves.length
    refine ((parse_spec fuel .or _).imp (fun _ _ h => h) fun h => ?_).next hmoves (not_stop nofun) ?_
    · have := hfuel h
      change 7 * _ + 7 ≤ fuel
      omega
    · rintro s₁ _ _ hmoves hstop ⟨e, rfl, rfl⟩
      refine .done (hmoves.then_put _) hstop ⟨some e, rfl, rfl⟩
  · exact .done (.refl s) List.not_mem_nil ⟨none, rfl, rfl⟩

/-- The sentences of the commands; `catalog` says that the session has a catalog. -/
abbrev Command (catalog : Bool) : List Token → List BcNode → Prop := Of Cmd.tokens (Cmd.emitted catalog)

theorem decls_spec {fuel : Nat} (hfuel : enough → s.tokens.length < fuel) :
    Spec .semicolon (Of (fun l : ColumnDecl × List ColumnDecl => commaList ColumnDecl.tokens l.1 l.2)
      fun l => (l.1 :: l.2).flatMap ColumnDecl.emitted) enough s (Y1.decls fuel s) := by
  refine (list_spec (nofun : Token.comma ≠ .semicolon) (fun s' _ => decl_spec s') hfuel).imp (fun ts ns h => ?_) id
  obtain ⟨x, xs, rfl, rfl⟩ := h.of
  exact ⟨(x, xs), rfl, rfl⟩

theorem ids_spec {fuel : Nat} (hfuel : enough → s.tokens.length < fuel) :
    Spec .semicolon (Of (fun l : List UInt8 × List (List UInt8) => commaList (fun name => [.id name]) l.1 l.2)
      fun l => (l.1 :: l.2).map .string) enough s (Y1.ids fuel s) := by
  refine (list_spec (nofun : Token.comma ≠ .semicolon) (fun s' _ => name_spec s') hfuel).imp (fun ts ns h => ?_) id
  obtain ⟨x, xs, rfl, rfl⟩ := h.of
  exact ⟨(x, xs), rfl, congrArg _ List.map_eq_flatMap.symm⟩

variable {catalog : Bool} {fuel : Nat}

/-- The end of a command. -/
theorem command_done (c : Cmd) (hmoves : Moves s s₁ ts ns) (hstop : Token.semicolon ∉ ts) (htokens : ts = c.tokens)
    (hemitted : ns = c.emitted catalog) : Spec .semicolon (Command catalog) enough s (.ok s₁) :=
  .done hmoves hstop ⟨c, htokens, hemitted⟩

theorem create_spec (hmoves : Moves s s₁ [.create] []) (hfuel : enough → s.tokens.length < fuel) :
    Spec .semicolon (Command catalog) enough s (Y1.create catalog fuel s₁) := by
  have hcreate : Token.semicolon ∉ [Token.create] := not_stop nofun
  unfold Y1.create
  split
  · next hhead =>
    refine ident_next (hmoves.trans (.shift hhead)) (not_stop_append hcreate (not_stop nofun))
      fun s₂ name hmoves hstop => ?_
    exact command_done (.createUser name) (hmoves.then_put _) hstop rfl rfl
  · next hhead =>
    refine ident_next (hmoves.trans (.shift hhead)) (not_stop_append hcreate (not_stop nofun))
      fun s₂ name hmoves hstop => ?_
    exact command_done (.createCatalog name) (hmoves.then_put _) hstop rfl rfl
  · next hhead =>
    refine ident_next (hmoves.trans (.shift hhead)) (not_stop_append hcreate (not_stop nofun))
      fun s₂ name hmoves hstop => ?_
    cases catalog with
    | true =>
        exact command_done (.createSchema name) (hmoves.then_put _) hstop rfl rfl
    | false => exact command_done (.createSchema name) hmoves hstop rfl rfl
  · next hhead =>
    refine table_next (hmoves.trans (.shift hhead)) (not_stop_append hcreate (not_stop nofun))
      fun s₂ schema table hmoves hstop => ?_
    have hopen : ∃ ns,
        Moves s (if catalog then s₂.put [.create, .table, .string schema, .string table, .arrayBegin] else s₂)
          ([.create] ++ [.table] ++ tableName schema table) ns
        ∧ ∀ decls, ns ++ decls ++ (if catalog then [BcNode.arrayEnd] else [])
          = if catalog then [.create, .table, .string schema, .string table, .arrayBegin] ++ decls ++ [.arrayEnd]
            else decls := by
      cases catalog with
      | true =>
          refine ⟨_, hmoves.then_put _, ?_⟩
          exact fun decls => rfl
      | false => exact ⟨_, hmoves, fun decls => List.append_nil _⟩
    obtain ⟨ns, hput, hnodes⟩ := hopen
    have hlength := hput.length
    refine expect_next hput hstop nofun fun s₃ hmoves hstop => ?_
    have hlength₃ := hmoves.length
    refine (decls_spec fun h => ?_).next hmoves hstop ?_
    · have := hfuel h
      omega
    · rintro s₄ _ _ hmoves hstop ⟨⟨decl, decls⟩, rfl, rfl⟩
      refine expect_next hmoves hstop nofun fun s₅ hmoves hstop => ?_
      have hclose : Moves s₅ (if catalog then s₅.put [.arrayEnd] else s₅) [] (if catalog then [.arrayEnd] else []) := by
        cases catalog with
        | true => exact .put _ _
        | false => exact .refl _
      refine command_done (.createTable schema table decl decls) (hmoves.trans hclose)
        (not_stop_append hstop List.not_mem_nil) ?_ (hnodes _)
      simp [Cmd.tokens]
  · exact .misplaced hmoves hcreate

theorem insert_spec (hmoves : Moves s s₁ [.insert] []) (hfuel : enough → s.tokens.length < fuel) :
    Spec .semicolon (Command catalog) enough s (Y1.insert fuel s₁) := by
  refine expect_next hmoves (not_stop nofun) nofun fun s₂ hmoves hstop => ?_
  refine table_next hmoves hstop fun s₃ schema table hmoves hstop => ?_
  have hput := hmoves.then_put [.insert, .string schema, .string table, .arrayBegin]
  refine expect_next hput hstop nofun fun s₄ hmoves hstop => ?_
  have hlength := hmoves.length
  refine (ids_spec fun h => ?_).next hmoves hstop ?_
  · have := hfuel h
    omega
  · rintro s₅ _ _ hmoves hstop ⟨⟨name, names⟩, rfl, rfl⟩
    refine expect_next hmoves hstop nofun fun s₆ hmoves hstop => ?_
    refine expect_next (hmoves.then_put [.arrayEnd]) hstop nofun fun s₇ hmoves hstop => ?_
    refine expect_next (hmoves.then_put [.arrayBegin]) hstop nofun fun s₈ hmoves hstop => ?_
    have hlength := hmoves.length
    refine (values_spec fun h => ?_).next hmoves hstop ?_
    · have := hfuel h
      omega
    · rintro s₉ _ _ hmoves hstop ⟨⟨value, values⟩, rfl, rfl⟩
      refine expect_next hmoves hstop nofun fun s₁₀ hmoves hstop => ?_
      refine command_done (.insert schema table name names value values) (hmoves.then_put _) hstop ?_ ?_
      · simp [Cmd.tokens, commaList, tableName]
      · simp [Cmd.emitted]

theorem row_spec (hfuel : enough → 7 * s.tokens.length + 8 ≤ fuel) (cmd : Execute.RowCmd)
    (htokens : ∀ clause, (Cmd.row cmd clause).tokens = ts ++ mbWhereTokens clause) (hnodes : ns = cmd.tokens)
    (hmoves : Moves s s₁ ts ns) (hstop : Token.semicolon ∉ ts) :
    Spec .semicolon (Command catalog) enough s (Y1.mbWhere fuel s₁) := by
  have hlength := hmoves.length
  refine (mbWhere_spec fun h => ?_).behind hmoves hstop ?_
  · have := hfuel h
    omega
  · rintro _ _ ⟨clause, rfl, rfl⟩
    refine ⟨.row cmd clause, (htokens clause).symm, ?_⟩
    rw [hnodes]
    exact (statement_eq cmd clause).symm

theorem cmd_spec (catalog : Bool) (fuel : Nat) (s : Y1) :
    Spec .semicolon (Command catalog) (7 * s.tokens.length + 8 ≤ fuel) s (Y1.cmd catalog fuel s) := by
  unfold Y1.cmd
  split
  · next hhead => exact create_spec (.shift hhead) (by omega)
  · next hhead =>
    refine expect_next (.shift hhead) (not_stop nofun) nofun fun s₁ hmoves hstop => ?_
    exact command_done .startTransaction (hmoves.then_put _) hstop rfl rfl
  · next hhead => exact command_done .commit (moves_put hhead) (not_stop nofun) rfl rfl
  · next hhead => exact command_done .rollback (moves_put hhead) (not_stop nofun) rfl rfl
  · next hhead => exact insert_spec (.shift hhead) (by omega)
  · next hhead =>
    refine expect_next (.shift hhead) (not_stop nofun) nofun fun s₁ hmoves hstop => ?_
    refine table_next hmoves hstop fun s₂ schema table hmoves hstop => ?_
    refine row_spec id (.delete schema table) (fun clause => ?_) rfl (hmoves.then_put _) hstop
    simp [Cmd.tokens]
  · next hhead =>
    have hput : Moves s (s.shift.put [BcNode.select, .arrayBegin]) [.select] [.select, .arrayBegin] := moves_put hhead
    have hlength := hput.length
    refine (ids_spec (by omega)).next hput (not_stop nofun) ?_
    rintro s₁ _ _ hmoves hstop ⟨⟨name, names⟩, rfl, rfl⟩
    refine expect_next (hmoves.then_put [.arrayEnd]) hstop nofun fun s₂ hmoves hstop => ?_
    refine table_next hmoves hstop fun s₃ schema table hmoves hstop => ?_
    refine row_spec id (.select schema table name names) (fun clause => ?_) ?_ (hmoves.then_put _) hstop
    · simp [Cmd.tokens]
    · simp [Execute.RowCmd.tokens]
  · exact .misplaced (.refl s) List.not_mem_nil

end Sound

end Scroller.Hquery

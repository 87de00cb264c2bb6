import Scroller.Proof.ExprParsing
import Scroller.RowCommand

/-!
# The bytecode of a clause

`bc_prepare` finds the two loop tokens of a command, and `y2lex` delivers the tokens between them again as long
as its iterator is valid.
-/

namespace Scroller.Execute

def isLoop : BcNode → Bool
  | .loopBegin _ | .loopEnd _ => true
  | _ => false

/-- A token of an expression: no loop token and no type, and a datum only of a value. -/
def IsExprToken (x : BcNode) : Prop :=
  isLoop x = false ∧ (∀ type, x ≠ .type type) ∧ ∀ d, x = .datum d → ∃ v : Hquery.Value, d = v.datum

theorem isExprToken_datum (v : Hquery.Value) : IsExprToken (.datum v.datum) := by
  refine ⟨rfl, nofun, fun d hd => ⟨v, ?_⟩⟩
  cases hd
  rfl

theorem emitted_isExprToken {n : Nonterminal} (t : Hquery.Tree n) : ∀ x ∈ t.emitted, IsExprToken x := by
  induction t with
  | orUnit e ih | andUnit e ih | notUnit e ih | cmpUnit e ih | additiveUnit e ih
  | multiplicativeUnit e ih => exact ih
  | or l r ihl ihr | and l r ihl ihr | cmp op l r ihl ihr | like l r ihl ihr | notLike l r ihl ihr
  | additive op l r ihl ihr | multiplicative op l r ihl ihr =>
      intro x hx
      simp only [Hquery.Tree.emitted, List.mem_append, List.mem_cons] at hx
      obtain hx | rfl | hx := hx
      · exact ihl x hx
      · exact ⟨rfl, nofun, nofun⟩
      · exact ihr x hx
  | isIn l v vs ih | notIn l v vs ih =>
      intro x hx
      simp only [Hquery.Tree.emitted, List.mem_append, List.mem_cons, List.mem_map, List.cons_append,
        List.append_assoc, List.not_mem_nil, or_false] at hx
      obtain hx | rfl | rfl | rfl | ⟨v, -, rfl⟩ | rfl := hx
      · exact ih x hx
      · exact ⟨rfl, nofun, nofun⟩
      · exact ⟨rfl, nofun, nofun⟩
      · exact isExprToken_datum _
      · exact isExprToken_datum _
      · exact ⟨rfl, nofun, nofun⟩
  | between y a b ihy iha ihb | notBetween y a b ihy iha ihb =>
      intro x hx
      simp only [Hquery.Tree.emitted, List.mem_append, List.mem_cons] at hx
      obtain (hx | rfl | hx) | hx := hx
      · exact ihy x hx
      · exact ⟨rfl, nofun, nofun⟩
      · exact iha x hx
      · exact ihb x hx
  | not e ih =>
      intro x hx
      obtain rfl | hx := List.mem_cons.mp hx
      · exact ⟨rfl, nofun, nofun⟩
      · exact ih x hx
  | value v =>
      intro x hx
      obtain rfl := List.mem_singleton.mp hx
      exact isExprToken_datum v
  | paren e ih =>
      intro x hx
      simp only [Hquery.Tree.emitted, List.cons_append, List.mem_cons, List.mem_append,
        List.not_mem_nil, or_false] at hx
      obtain rfl | hx | rfl := hx
      · exact ⟨rfl, nofun, nofun⟩
      · exact ih x hx
      · exact ⟨rfl, nofun, nofun⟩

theorem emitted_isLoop {n : Nonterminal} (t : Hquery.Tree n) : ∀ x ∈ t.emitted, isLoop x = false :=
  fun x hx => (emitted_isExprToken t x hx).1

theorem tokens_isLoop (cmd : RowCmd) : ∀ x ∈ cmd.tokens, isLoop x = false := by
  intro x hx
  cases cmd with
  | delete schema table =>
      simp only [RowCmd.tokens, List.mem_cons, List.not_mem_nil, or_false] at hx
      obtain rfl | rfl | rfl := hx <;> rfl
  | select schema table name names =>
      simp only [RowCmd.tokens, List.map_cons, List.cons_append, List.nil_append, List.mem_cons,
        List.mem_append, List.mem_map, List.not_mem_nil, or_false] at hx
      obtain rfl | rfl | rfl | ⟨name, -, rfl⟩ | rfl | rfl | rfl := hx <;> rfl

/-- No command with a clause names a type. -/
theorem type_not_mem (cmd : RowCmd) (clause : Option (Hquery.Tree .or)) (type : DatumType) :
    BcNode.type type ∉ cmd.statement clause := by
  have htokens : BcNode.type type ∉ cmd.tokens := by
    cases cmd with
    | delete schema table => simp [RowCmd.tokens]
    | select schema table name names => simp [RowCmd.tokens]
  cases clause with
  | none => exact htokens
  | some e =>
      intro hmem
      simp only [RowCmd.statement, RowCmd.bytecode, List.mem_append, List.mem_cons, List.not_mem_nil, or_false,
        reduceCtorEq, false_or, htokens] at hmem
      exact (emitted_isExprToken e _ hmem).2.1 type rfl

/-! ### Preparing -/

theorem prepare_skip {s : List BcNode × List Nat} {is : List Nat}
    (h : ∀ i ∈ is, ∀ x, s.1[i]? = some x → isLoop x = false) :
    is.foldlM prepareStep s = .ok s := by
  induction is with
  | nil => rfl
  | cons i is ih =>
      have hstep : prepareStep s i = .ok s := by
        unfold prepareStep
        split
        next x hx => exact absurd (h i List.mem_cons_self _ hx) Bool.true_eq_false.mp
        next x hx => exact absurd (h i List.mem_cons_self _ hx) Bool.true_eq_false.mp
        next => rfl
      rw [List.foldlM_cons, hstep]
      exact ih fun j hj => h j (List.mem_cons_of_mem i hj)

theorem bcPrepare_plain {tokens : List BcNode} (h : ∀ x ∈ tokens, isLoop x = false) :
    bcPrepare tokens = .ok tokens := by
  unfold bcPrepare
  rw [prepare_skip fun i _ x hx => h x (List.mem_of_getElem? hx)]
  rfl

/-- The bytecode of a clause with values in its loop tokens. -/
def loopTokens (pre body : List BcNode) (first last : Nat) : List BcNode :=
  pre ++ .wher :: .loopBegin first :: (body ++ [.loopEnd last])

section Tokens

variable {pre body : List BcNode} {first last : Nat}

theorem loopTokens_length : (loopTokens pre body first last).length = pre.length + body.length + 3 := by
  simp only [loopTokens, List.length_append, List.length_cons, List.length_nil]
  omega

theorem loopTokens_pre {i : Nat} (hi : i < pre.length) :
    (loopTokens pre body first last)[i]? = pre[i]? := by
  rw [loopTokens, List.getElem?_append_left hi]

theorem loopTokens_wher : (loopTokens pre body first last)[pre.length]? = some .wher := by
  rw [loopTokens, List.getElem?_append_right (Nat.le_refl _), Nat.sub_self]
  rfl

theorem loopTokens_begin :
    (loopTokens pre body first last)[pre.length + 1]? = some (.loopBegin first) := by
  rw [loopTokens, List.getElem?_append_right (Nat.le_add_right _ _), Nat.add_sub_cancel_left]
  rfl

theorem loopTokens_body {i : Nat} (hi : i < body.length) :
    (loopTokens pre body first last)[pre.length + 2 + i]? = body[i]? := by
  rw [loopTokens, List.getElem?_append_right (by omega), show pre.length + 2 + i - pre.length = i + 2 by omega,
    List.getElem?_cons_succ, List.getElem?_cons_succ, List.getElem?_append_left hi]

theorem loopTokens_end :
    (loopTokens pre body first last)[pre.length + 2 + body.length]? = some (.loopEnd last) := by
  rw [loopTokens, List.getElem?_append_right (by omega),
    show pre.length + 2 + body.length - pre.length = body.length + 2 by omega,
    List.getElem?_cons_succ, List.getElem?_cons_succ, List.getElem?_append_right (Nat.le_refl _),
    Nat.sub_self]
  rfl

theorem loopTokens_set (first' last' : Nat) :
    ((loopTokens pre body first last).set (pre.length + 1) (.loopBegin first')).set
        (pre.length + 2 + body.length) (.loopEnd last')
      = loopTokens pre body first' last' := by
  rw [loopTokens, loopTokens, List.set_append_right _ _ (Nat.le_add_right _ _), Nat.add_sub_cancel_left,
    List.set_cons_succ, List.set_cons_zero, List.set_append_right _ _ (by omega),
    show pre.length + 2 + body.length - pre.length = body.length + 2 by omega, List.set_cons_succ,
    List.set_cons_succ, List.set_append_right _ _ (Nat.le_refl _), Nat.sub_self, List.set_cons_zero]

end Tokens

/-- `bc_prepare` on the bytecode of a clause. -/
theorem bcPrepare_loop {pre body : List BcNode} (hpre : ∀ x ∈ pre, isLoop x = false)
    (hbody : ∀ x ∈ body, isLoop x = false) :
    bcPrepare (loopTokens pre body 0 0)
      = .ok (loopTokens pre body (pre.length + body.length + 3) (pre.length + 1)) := by
  have hrange : List.range (pre.length + body.length + 3)
      = List.range (pre.length + 1) ++ ((pre.length + 1) ::
        (List.range' (pre.length + 2) body.length ++ [pre.length + 2 + body.length])) := by
    have hsplit : List.range' (pre.length + 1) (body.length + 1 + 1)
        = (pre.length + 1) ::
          (List.range' (pre.length + 2) body.length ++ [pre.length + 2 + body.length]) := by
      rw [List.range'_succ, List.range'_concat, Nat.one_mul]
    rw [List.range_eq_range', List.range_eq_range', ← hsplit,
      show pre.length + body.length + 3 = (pre.length + 1) + (body.length + 1 + 1) by omega,
      ← List.range'_append_1, Nat.zero_add]
  have hfront : (List.range (pre.length + 1)).foldlM prepareStep (loopTokens pre body 0 0, [])
      = .ok (loopTokens pre body 0 0, []) := by
    refine prepare_skip fun i hi x hx => ?_
    obtain hi | rfl := Nat.lt_or_eq_of_le (Nat.le_of_lt_succ (List.mem_range.mp hi))
    · rw [loopTokens_pre hi] at hx
      exact hpre x (List.mem_of_getElem? hx)
    · rw [loopTokens_wher] at hx
      cases hx
      rfl
  have hmiddle : (List.range' (pre.length + 2) body.length).foldlM prepareStep
      (loopTokens pre body 0 0, [pre.length + 1])
      = .ok (loopTokens pre body 0 0, [pre.length + 1]) := by
    refine prepare_skip fun i hi x hx => ?_
    obtain ⟨j, hj, rfl⟩ := List.mem_range'.mp hi
    rw [Nat.one_mul, loopTokens_body hj] at hx
    exact hbody x (List.mem_of_getElem? hx)
  have hbegin : prepareStep (loopTokens pre body 0 0, []) (pre.length + 1)
      = .ok (loopTokens pre body 0 0, [pre.length + 1]) := by
    unfold prepareStep
    rw [loopTokens_begin]
    rfl
  have hend : prepareStep (loopTokens pre body 0 0, [pre.length + 1]) (pre.length + 2 + body.length)
      = .ok (loopTokens pre body (pre.length + body.length + 3) (pre.length + 1), []) := by
    unfold prepareStep
    rw [loopTokens_end]
    dsimp only
    rw [loopTokens_set, show pre.length + 2 + body.length + 1 = pre.length + body.length + 3 by omega]
  unfold bcPrepare
  rw [loopTokens_length, hrange, List.foldlM_append, hfront]
  dsimp only [bind, Except.bind]
  rw [List.foldlM_cons, hbegin]
  dsimp only [bind, Except.bind]
  rw [List.foldlM_append, hmiddle]
  dsimp only [bind, Except.bind]
  rw [List.foldlM_cons, hend]
  rfl

/-! ### Delivering -/

section Lexer

variable {cfg : Config} {fuel : Nat} {db : Db} {tokens : List BcNode} {titor : Option Titor}
  {delivered : List BcNode} {i : Nat}

theorem y2lex_token {x : BcNode} (hx : tokens[i]? = some x) (hloop : isLoop x = false) :
    BcItor.y2lex cfg fuel db tokens ⟨i, titor, delivered⟩
      = .ok (⟨i + 1, titor, delivered ++ [x]⟩, some x) := by
  have hi : i ≠ tokens.length := Nat.ne_of_lt (List.getElem?_eq_some_iff.mp hx).1
  unfold BcItor.y2lex
  dsimp only
  split
  next h =>
    rw [hx] at h
    cases h
    cases hloop
  next h =>
    rw [hx] at h
    cases h
    cases hloop
  next =>
    unfold BcItor.deliverOrEnd BcItor.deliver
    rw [if_neg hi, hx]

theorem y2lex_end (hi : i = tokens.length) :
    BcItor.y2lex cfg fuel db tokens ⟨i, titor, delivered⟩ = .ok (⟨i, titor, delivered⟩, none) := by
  have hnone : tokens[i]? = none := List.getElem?_eq_none (Nat.le_of_eq hi.symm)
  unfold BcItor.y2lex
  dsimp only
  rw [hnone]
  exact if_pos hi

theorem lexes_tokens {xs : List BcNode} (hxs : ∀ x ∈ xs, isLoop x = false)
    (hi : ∀ j, j < xs.length → tokens[i + j]? = xs[j]?) :
    Lexes (y2lexer cfg fuel db tokens) ⟨i, titor, delivered⟩ (xs.map some)
      ⟨i + xs.length, titor, delivered ++ xs⟩ := by
  induction xs generalizing i delivered with
  | nil => simp [Lexes]
  | cons x xs ih =>
      refine ⟨_, y2lex_token (hi 0 (Nat.zero_lt_succ _)) (hxs x List.mem_cons_self), ?_⟩
      have hrest := @ih (delivered ++ [x]) (i + 1) (fun y hy => hxs y (List.mem_cons_of_mem x hy))
        fun j hj => by
          rw [Nat.add_assoc, Nat.add_comm 1 j]
          exact hi (j + 1) (Nat.succ_lt_succ hj)
      rw [List.append_assoc, Nat.add_assoc, Nat.add_comm 1 xs.length] at hrest
      exact hrest

end Lexer

section Copies

variable {cfg : Config} {fuel : Nat} {db : Db} {pre body : List BcNode} {b : BcNode}
  {bs delivered : List BcNode} {row next : Titor}

/-- The prepared bytecode of a clause. -/
def prepared (pre body : List BcNode) : List BcNode :=
  loopTokens pre body (pre.length + body.length + 3) (pre.length + 1)

theorem prepared_length : (prepared pre body).length = pre.length + body.length + 3 :=
  loopTokens_length

theorem prepared_first (hbody : body = b :: bs) :
    (prepared pre body)[pre.length + 1 + 1]? = some b := by
  have hpos : 0 < body.length := by
    rw [hbody]
    exact Nat.zero_lt_succ _
  rw [prepared, show pre.length + 1 + 1 = pre.length + 2 + 0 from rfl, loopTokens_body hpos, hbody]
  rfl

/-- `LOOP_BEGIN` with a row goes into the loop. -/
theorem y2lex_begin (hbody : body = b :: bs) (hrow : titorIsValid db row = true) :
    BcItor.y2lex cfg fuel db (prepared pre body) ⟨pre.length + 1, some row, delivered⟩
      = .ok (⟨pre.length + 3, some row, delivered ++ [b]⟩, some b) := by
  have hne : pre.length + 1 + 1 ≠ (prepared pre body).length := by
    rw [prepared_length]
    omega
  unfold BcItor.y2lex
  dsimp only
  rw [show (prepared pre body)[pre.length + 1]? = some (.loopBegin _) from loopTokens_begin]
  have hvalid : titorValid db (some row) = true := hrow
  dsimp only
  rw [if_pos hvalid]
  unfold BcItor.deliverOrEnd BcItor.deliver
  rw [if_neg hne, prepared_first hbody]

/-- `LOOP_BEGIN` without a row goes behind `LOOP_END`. -/
theorem y2lex_skip {row : Option Titor} (hrow : titorValid db row = false) :
    BcItor.y2lex cfg fuel db (prepared pre body) ⟨pre.length + 1, row, delivered⟩
      = .ok (⟨pre.length + body.length + 3, row, delivered⟩, none) := by
  unfold BcItor.y2lex
  dsimp only
  rw [show (prepared pre body)[pre.length + 1]? = some (.loopBegin _) from loopTokens_begin]
  dsimp only
  rw [if_neg (by rw [hrow]; exact Bool.false_ne_true)]
  exact if_pos prepared_length.symm

/-- What stands behind a copy: the first token of the next one if there is a next row, or the end. -/
def behind (db : Db) (pre body : List BcNode) (b : BcNode) (next : Titor) (delivered : List BcNode) :
    BcItor × Option BcNode :=
  if titorIsValid db next then (⟨pre.length + 3, some next, delivered ++ [b]⟩, some b)
  else (⟨pre.length + body.length + 3, some next, delivered⟩, none)

/-- `LOOP_END` moves the iterator. -/
theorem y2lex_loopEnd (hbody : body = b :: bs) (hnext : titorNext cfg fuel db row = .ok next) :
    BcItor.y2lex cfg fuel db (prepared pre body) ⟨pre.length + 2 + body.length, some row, delivered⟩
      = .ok (behind db pre body b next delivered) := by
  unfold BcItor.y2lex
  dsimp only
  rw [show (prepared pre body)[pre.length + 2 + body.length]? = some (.loopEnd _) from loopTokens_end]
  dsimp only
  rw [hnext]
  dsimp only [call, Except.mapError, bind, Except.bind]
  unfold behind
  by_cases hvalid : titorIsValid db next
  · rw [if_pos hvalid, if_pos hvalid]
    unfold BcItor.deliver
    rw [prepared_first hbody]
  · rw [if_neg hvalid, if_neg hvalid,
      show pre.length + 2 + body.length + 1 = pre.length + body.length + 3 by omega]
    exact if_pos prepared_length.symm

/-- The parser is in front of a copy: no token is ahead, or the first one. -/
def AtCopy (pre : List BcNode) (b : BcNode) (look : Look BcItor) (row : Titor)
    (delivered : List BcNode) : Prop :=
  look = ⟨⟨pre.length + 1, some row, delivered⟩, none⟩
    ∨ look = ⟨⟨pre.length + 3, some row, delivered ++ [b]⟩, some (some b)⟩

theorem shows_copy {look : Look BcItor} (hbody : body = b :: bs)
    (hloop : ∀ x ∈ body, isLoop x = false) (hrow : titorIsValid db row = true)
    (hnext : titorNext cfg fuel db row = .ok next) (hlook : AtCopy pre b look row delivered) :
    Shows (y2lexer cfg fuel db (prepared pre body)) look
      (body.map some ++ [(behind db pre body b next (delivered ++ body)).2])
      (behind db pre body b next (delivered ++ body)).1 := by
  have hrest : Lexes (y2lexer cfg fuel db (prepared pre body))
      ⟨pre.length + 3, some row, delivered ++ [b]⟩
      (bs.map some ++ [(behind db pre body b next (delivered ++ body)).2])
      (behind db pre body b next (delivered ++ body)).1 := by
    refine Lexes.append_iff.mpr ⟨_, lexes_tokens (fun x hx => hloop x ?_) fun j hj => ?_, ?_⟩
    · rw [hbody]
      exact List.mem_cons_of_mem b hx
    · have hj' : j + 1 < body.length := by
        rw [hbody]
        exact Nat.succ_lt_succ hj
      rw [prepared, show pre.length + 3 + j = pre.length + 2 + (j + 1) by omega, loopTokens_body hj',
        hbody]
      rfl
    · have hlength : pre.length + 3 + bs.length = pre.length + 2 + body.length := by
        rw [hbody, List.length_cons]
        omega
      have hdelivered : delivered ++ [b] ++ bs = delivered ++ body := by
        rw [hbody, List.append_assoc]
        rfl
      rw [hlength, hdelivered]
      exact ⟨_, y2lex_loopEnd hbody hnext, rfl⟩
  have hstream : body.map some = some b :: bs.map some := by
    rw [hbody, List.map_cons]
  rw [hstream, List.cons_append]
  obtain rfl | rfl := hlook
  · exact ⟨_, y2lex_begin hbody hrow, hrest⟩
  · exact Shows.ahead _ hrest

end Copies

end Scroller.Execute

import Scroller.HqueryCmd
import Scroller.Proof.ScanCommands

/-!
# The response to a command

A command is answered with a status, or with a body that has a header of its own, the columns, the rows and one
end. The commands other than `DELETE` and `SELECT` are answered so whenever they return. The other two answer what
they have found no table for once more behind it, and stop at a row without a value for their clause.
-/

namespace Scroller.Execute

open Outcome

/-- A well-formed response: a header alone, or a header with a body. -/
inductive OneResponse : List Piece → Prop where
  | status (status : ScrcStatus) : OneResponse [.status status]
  | body (columns : List Column) (rows : List (Nat × Row)) :
      OneResponse ([.bodyHeader, .tabheader] ++ columns.map .column ++ [.finish, .tabdata]
        ++ rows.map (fun row => .row row.1 row.2) ++ [.finish])

/-- Behind something else a response does not end with a status. -/
theorem not_oneResponse {pieces : List Piece} {status : ScrcStatus} (h : pieces ≠ []) :
    ¬ OneResponse (pieces ++ [.status status]) := by
  generalize heq : pieces ++ [.status status] = sent
  intro hone
  cases hone with
  | status st =>
      have hlength := congrArg List.length heq
      rw [List.length_append, List.length_singleton, List.length_singleton] at hlength
      exact h (List.length_eq_zero_iff.mp (by omega))
  | body columns rows =>
      have hlast := congrArg List.getLast? heq
      rw [List.getLast?_concat, List.getLast?_concat] at hlast
      cases hlast

theorem not_oneResponse_finish {status : ScrcStatus} : ¬ OneResponse [.status status, .finish] := by
  generalize heq : [Piece.status status, .finish] = sent
  intro hone
  cases hone with
  | status st => cases heq
  | body columns rows => cases heq

/-! ### Commands with a status -/

/-- The command ends the process. -/
def Halt.IsFault (halt : Halt) : Prop := ∃ fault, halt = .fault fault

/-- The parser has sent a status and is at the end of the tokens. -/
def Answered (tokens : List BcNode) (s : Y2) : Prop :=
  (∃ status, s.sent = [.status status]) ∧ ∃ titor delivered, s.look = ⟨⟨tokens.length, titor, delivered⟩, none⟩

section Replies

variable {cfg : Config} {fuel : Nat} {tokens : List BcNode} {s : Y2} {titor : Option Titor}
  {delivered : List BcNode}

theorem perform_ensures {α : Type} (x : Except Fault α) :
    Ensures (fun _ => True) Halt.IsFault (Y2.perform x) := by
  cases x with
  | ok a => exact True.intro
  | error fault => exact ⟨fault, rfl⟩

theorem reply_answered (hsent : s.sent = []) (hlook : s.look = ⟨⟨tokens.length, titor, delivered⟩, none⟩)
    (x : Except Fault (Db × Session × ScrcStatus)) :
    Ensures (Answered tokens) Halt.IsFault (s.reply x) := by
  apply (perform_ensures x).bind
  rintro ⟨db, session, status⟩ -
  refine ensures_ok ⟨⟨status, ?_⟩, titor, delivered, hlook⟩
  show s.sent ++ [.status status] = [.status status]
  rw [hsent]
  rfl

theorem replyDb_answered (hsent : s.sent = []) (hlook : s.look = ⟨⟨tokens.length, titor, delivered⟩, none⟩)
    (x : Except Fault (Db × ScrcStatus)) : Ensures (Answered tokens) Halt.IsFault (s.replyDb x) := by
  apply (perform_ensures x).bind
  rintro ⟨db, status⟩ -
  refine ensures_ok ⟨⟨status, ?_⟩, titor, delivered, hlook⟩
  show s.sent ++ [.status status] = [.status status]
  rw [hsent]
  rfl

theorem replyTran_answered (hsent : s.sent = []) (hlook : s.look = ⟨⟨tokens.length, titor, delivered⟩, none⟩)
    (x : Except Fault (TranState × Session × ScrcStatus)) :
    Ensures (Answered tokens) Halt.IsFault (s.replyTran x) := by
  apply (perform_ensures x).bind
  rintro ⟨ts, session, status⟩ -
  refine ensures_ok ⟨⟨status, ?_⟩, titor, delivered, hlook⟩
  show s.sent ++ [.status status] = [.status status]
  rw [hsent]
  rfl

end Replies

/-! ### Tokens -/

theorem drop_cons {α : Type} {xs ys : List α} {i : Nat} {x : α} (h : xs.drop i = x :: ys) :
    xs[i]? = some x ∧ xs.drop (i + 1) = ys := by
  constructor
  · rw [← List.head?_drop, h]
    rfl
  · rw [← List.drop_drop, h]
    rfl

theorem drop_array {tokens xs rest : List BcNode} {i : Nat}
    (h : tokens.drop i = .arrayBegin :: (xs ++ .arrayEnd :: rest)) :
    tokens.drop (i + 1 + xs.length + 1) = rest := by
  rw [Nat.add_assoc, ← List.drop_drop, (drop_cons h).2, List.drop_append, List.drop_eq_nil_of_le (Nat.le_succ _),
    Nat.add_sub_cancel_left]
  rfl

namespace Y2

section Tokens

variable {cfg : Config} {fuel : Nat} {tokens rest : List BcNode} {s : Y2} {i : Nat} {titor : Option Titor}
  {delivered : List BcNode}

theorem peek_end (hlook : s.look = ⟨⟨tokens.length, titor, delivered⟩, none⟩) :
    s.peek cfg fuel tokens
      = .ok ({ s with look := ⟨⟨tokens.length, titor, delivered⟩, some none⟩ }, none) := by
  unfold peek Look.peek
  rw [hlook]
  dsimp only [y2lexer]
  rw [y2lex_end rfl]
  rfl

/-- The columns of `CREATE TABLE` up to `ARRAY_END`. -/
theorem decls_tokens {ds : List Hquery.ColumnDecl} {k : Nat} (hk : ds.length < k)
    (hlook : s.look = ⟨⟨i, titor, delivered⟩, none⟩)
    (hrest : tokens.drop i = ds.flatMap Hquery.ColumnDecl.emitted ++ .arrayEnd :: rest) :
    s.decls cfg fuel tokens k
      = .ok ({ s with look := ⟨⟨i + 3 * ds.length + 1, titor,
          delivered ++ ds.flatMap Hquery.ColumnDecl.emitted ++ [.arrayEnd]⟩, some (some .arrayEnd)⟩ },
          ds.map Hquery.ColumnDecl.decl) := by
  induction ds generalizing s i delivered k with
  | nil =>
      obtain ⟨k, rfl⟩ := Nat.exists_eq_succ_of_ne_zero (Nat.ne_zero_of_lt hk)
      obtain ⟨hend, -⟩ := drop_cons hrest
      rw [Nat.succ_eq_add_one, decls, peek_token hlook hend rfl, List.flatMap_nil, List.append_nil]
      rfl
  | cons d ds ih =>
      obtain ⟨k, rfl⟩ := Nat.exists_eq_succ_of_ne_zero (Nat.ne_zero_of_lt hk)
      obtain ⟨hsize, hrest⟩ := drop_cons hrest
      obtain ⟨htype, hrest⟩ := drop_cons hrest
      obtain ⟨hname, hrest⟩ := drop_cons hrest
      rw [Nat.succ_eq_add_one, decls, peek_token hlook hsize rfl]
      dsimp only [bind, Except.bind]
      unfold decl
      rw [peek_token rfl htype rfl]
      dsimp only [bind, Except.bind]
      rw [string_token rfl hname]
      dsimp only [bind, Except.bind, pure, Except.pure, shift, Look.shift]
      have hdecls := ih (s := { s with look := ⟨⟨i + 1 + 1 + 1, titor,
        delivered ++ [.size d.type.size] ++ [.type d.type.type] ++ [.string d.name]⟩, none⟩ })
        (Nat.lt_of_succ_lt_succ hk) rfl hrest
      have hdelivered : delivered ++ [.size d.type.size] ++ [.type d.type.type] ++ [.string d.name]
            ++ ds.flatMap Hquery.ColumnDecl.emitted
          = delivered ++ (d :: ds).flatMap Hquery.ColumnDecl.emitted := by
        simp [Hquery.ColumnDecl.emitted, Hquery.ColumnType.emitted]
      rw [hdecls, hdelivered, List.length_cons,
        show i + 3 * (ds.length + 1) + 1 = i + 1 + 1 + 1 + 3 * ds.length + 1 by omega]
      rfl

theorem stringArray_drop {name : List UInt8} {names : List (List UInt8)} (hfuel : (name :: names).length < fuel)
    (hlook : s.look = ⟨⟨i, titor, delivered⟩, none⟩)
    (hrest : tokens.drop i = .arrayBegin :: ((name :: names).map .string ++ .arrayEnd :: rest)) :
    s.stringArray cfg fuel tokens
      = .ok ({ s with look := ⟨⟨i + 1 + (name :: names).length + 1, titor,
          delivered ++ [.arrayBegin] ++ (name :: names).map .string ++ [.arrayEnd]⟩, none⟩ },
          name :: names) := by
  obtain ⟨hbegin, hnames⟩ := drop_cons hrest
  have hget (j : Nat) : tokens[i + 1 + j]? = ((name :: names).map BcNode.string ++ .arrayEnd :: rest)[j]? := by
    rw [← hnames, List.getElem?_drop]
  have hend : tokens[i + 1 + (name :: names).length]? = some .arrayEnd := by
    rw [hget, List.getElem?_append_right (by simp), List.length_map, Nat.sub_self]
    rfl
  have hstrings (j : Nat) (hj : j < (name :: names).length) :
      tokens[i + 1 + j]? = ((name :: names).map BcNode.string)[j]? := by
    rw [hget, List.getElem?_append_left (by simpa using hj)]
  exact stringArray_tokens hfuel hlook hbegin hstrings hend

/-- An array of values without a row, up to the end of the tokens. -/
theorem valueArray_drop {d : Datum} {ds : List Datum} (hfuel : (d :: ds).length < fuel)
    (hlook : s.look = ⟨⟨i, titor, delivered⟩, none⟩) (hnone : s.titor = none)
    (hrest : tokens.drop i = .arrayBegin :: ((d :: ds).map .datum ++ [.arrayEnd])) :
    s.valueArray cfg fuel tokens
      = .ok ({ s with look := ⟨⟨tokens.length, titor,
          delivered ++ [.arrayBegin] ++ ((d :: ds).map .datum ++ [.arrayEnd])⟩, none⟩ }, d :: ds) := by
  obtain ⟨hbegin, hvalues⟩ := drop_cons hrest
  have hlength : i + 1 + ((d :: ds).map BcNode.datum ++ [BcNode.arrayEnd]).length = tokens.length := by
    have hpos := (List.getElem?_eq_some_iff.mp hbegin).1
    have hcount := congrArg List.length hvalues
    rw [List.length_drop] at hcount
    omega
  have hloop : ∀ x ∈ (d :: ds).map BcNode.datum ++ [.arrayEnd], isLoop x = false := by
    intro x hx
    rcases List.mem_append.mp hx with hx | hx
    · obtain ⟨d, -, rfl⟩ := List.mem_map.mp hx
      rfl
    · obtain rfl := List.mem_singleton.mp hx
      rfl
  have hlexes := @lexes_tokens cfg fuel s.db tokens titor (delivered ++ [.arrayBegin]) (i + 1) _ hloop
    fun j _ => by rw [← hvalues, List.getElem?_drop]
  have hshows : Shows (y2lexer cfg fuel s.db tokens) ⟨⟨i + 1, titor, delivered ++ [.arrayBegin]⟩, none⟩
      ((d :: ds).map (fun d => some (BcNode.datum d)) ++ [some .arrayEnd])
      ⟨tokens.length, titor, delivered ++ [.arrayBegin] ++ ((d :: ds).map BcNode.datum ++ [.arrayEnd])⟩ := by
    rw [List.map_append, List.map_map, hlength] at hlexes
    exact hlexes
  have hvalue : ∀ d, (evalActions cfg.build (titorColumns cfg s.db s.titor)).value d = .ok d := by
    intro d
    show valueAction (titorColumns cfg s.db s.titor) d = .ok d
    rw [hnone]
    unfold valueAction
    split
    · rfl
    · rfl
  have hmap : (d :: ds).mapM (evalActions cfg.build (titorColumns cfg s.db s.titor)).value = .ok (d :: ds) := by
    rw [show (evalActions cfg.build (titorColumns cfg s.db s.titor)).value = fun d => .ok d from funext hvalue]
    exact mapM_ok _
  have hend (d : Datum) : some BcNode.arrayEnd ≠ some (.datum d) := nofun
  unfold valueArray
  rw [expect_token hlook hbegin rfl]
  dsimp only [bind, Except.bind]
  rw [parseValues_eq _ hend hfuel hshows, hmap]
  dsimp only [bind, Except.bind, within]
  rw [if_neg (List.cons_ne_nil d ds), expect_ahead rfl]
  rfl

end Tokens

end Y2

/-! ### Commands other than `DELETE` and `SELECT` -/

section Statuses

variable {cfg : Config} {fuel : Nat} {db : Db} {session : Session} {leftover : Option Tran}

theorem cmd_start {x : BcNode} {xs : List BcNode} (hloop : isLoop x = false) :
    (Y2.init db session).peek cfg fuel (x :: xs)
      = .ok ({ Y2.init db session with look := ⟨⟨1, none, [x]⟩, some (some x)⟩ }, some x) :=
  Y2.peek_token (show (Y2.init db session).look = ⟨⟨0, none, []⟩, none⟩ from rfl) rfl hloop

theorem create_name_answered {x : BcNode} {name : List UInt8} (hx : x = .user ∨ x = .catalog ∨ x = .schema) :
    Ensures (Answered [.create, x, .string name]) Halt.IsFault
      ((Y2.init db session).cmd cfg fuel [.create, x, .string name] leftover) := by
  have hloop : isLoop x = false := by
    rcases hx with rfl | rfl | rfl <;> rfl
  unfold Y2.cmd
  rw [cmd_start rfl]
  dsimp only [bind, Except.bind]
  unfold Y2.create
  rw [Y2.peek_token rfl (show [BcNode.create, x, .string name][1]? = some x from rfl) hloop]
  dsimp only [bind, Except.bind]
  rcases hx with rfl | rfl | rfl
  · dsimp only
    rw [Y2.string_token rfl rfl]
    exact replyDb_answered rfl rfl _
  · dsimp only
    rw [Y2.string_token rfl rfl]
    exact replyDb_answered rfl rfl _
  · dsimp only
    rw [Y2.string_token rfl rfl]
    exact replyDb_answered rfl rfl _

theorem tran_answered {x : BcNode} (hx : x = .startTran ∨ x = .commit ∨ x = .rollback) :
    Ensures (Answered [x]) Halt.IsFault ((Y2.init db session).cmd cfg fuel [x] leftover) := by
  have hloop : isLoop x = false := by
    rcases hx with rfl | rfl | rfl <;> rfl
  unfold Y2.cmd
  rw [cmd_start hloop]
  dsimp only [bind, Except.bind]
  rcases hx with rfl | rfl | rfl
  · exact replyTran_answered rfl rfl _
  · exact replyTran_answered rfl rfl _
  · exact replyTran_answered rfl rfl _

theorem length_emitted (ds : List Hquery.ColumnDecl) :
    (ds.flatMap Hquery.ColumnDecl.emitted).length = 3 * ds.length := by
  induction ds with
  | nil => rfl
  | cons d ds ih =>
      rw [List.flatMap_cons, List.length_append, ih, List.length_cons, Nat.mul_succ, Nat.add_comm]
      rfl

theorem createTable_answered {schema table : List UInt8} {d : Hquery.ColumnDecl} {ds : List Hquery.ColumnDecl}
    {tokens : List BcNode} (hfuel : (d :: ds).length < fuel)
    (htokens : tokens = (Hquery.Cmd.createTable schema table d ds).emitted true) :
    Ensures (Answered tokens) Halt.IsFault ((Y2.init db session).cmd cfg fuel tokens leftover) := by
  have hdrop : tokens.drop 0 = .create :: .table :: .string schema :: .string table :: .arrayBegin ::
      ((d :: ds).flatMap Hquery.ColumnDecl.emitted ++ [.arrayEnd]) := htokens
  have hlength : 0 + 1 + 1 + 1 + 1 + 1 + 3 * (d :: ds).length + 1 = tokens.length := by
    rw [← List.drop_zero (l := tokens), hdrop, ← length_emitted]
    simp only [List.length_cons, List.length_append, List.length_nil]
    omega
  obtain ⟨hcreate, hdrop⟩ := drop_cons hdrop
  obtain ⟨htable, hdrop⟩ := drop_cons hdrop
  obtain ⟨hschema, hdrop⟩ := drop_cons hdrop
  obtain ⟨hname, hdrop⟩ := drop_cons hdrop
  obtain ⟨hbegin, hdrop⟩ := drop_cons hdrop
  unfold Y2.cmd
  rw [Y2.peek_token (show (Y2.init db session).look = ⟨⟨0, none, []⟩, none⟩ from rfl) hcreate rfl]
  dsimp only [bind, Except.bind]
  unfold Y2.create
  rw [Y2.peek_token rfl htable rfl]
  dsimp only [bind, Except.bind]
  rw [Y2.string_token rfl hschema]
  dsimp only [bind, Except.bind]
  rw [Y2.string_token rfl hname]
  dsimp only [bind, Except.bind]
  rw [Y2.expect_token rfl hbegin rfl]
  dsimp only [bind, Except.bind]
  rw [Y2.decls_tokens hfuel rfl hdrop]
  dsimp only
  rw [hlength, if_neg (by simp), Y2.expect_ahead rfl]
  exact replyDb_answered rfl rfl _

theorem insert_answered {schema table name : List UInt8} {names : List (List UInt8)} {v : Hquery.Value}
    {vs : List Hquery.Value} {tokens : List BcNode} (hnames : (name :: names).length < fuel)
    (hvalues : (v :: vs).length < fuel)
    (htokens : tokens = (Hquery.Cmd.insert schema table name names v vs).emitted true) :
    Ensures (Answered tokens) Halt.IsFault ((Y2.init db session).cmd cfg fuel tokens leftover) := by
  have hdrop : tokens.drop 0 = .insert :: .string schema :: .string table :: .arrayBegin ::
      ((name :: names).map .string ++ .arrayEnd :: .arrayBegin ::
        ((v.datum :: vs.map Hquery.Value.datum).map .datum ++ [.arrayEnd])) := by
    rw [List.drop_zero, htokens]
    simp [Hquery.Cmd.emitted]
  obtain ⟨hinsert, hdrop⟩ := drop_cons hdrop
  obtain ⟨hschema, hdrop⟩ := drop_cons hdrop
  obtain ⟨htable, hdrop⟩ := drop_cons hdrop
  have hrest := drop_array hdrop
  rw [List.length_map] at hrest
  unfold Y2.cmd
  rw [Y2.peek_token (show (Y2.init db session).look = ⟨⟨0, none, []⟩, none⟩ from rfl) hinsert rfl]
  dsimp only [bind, Except.bind]
  unfold Y2.insertRule
  rw [Y2.string_token rfl hschema]
  dsimp only [bind, Except.bind]
  rw [Y2.string_token rfl htable]
  dsimp only [bind, Except.bind]
  rw [Y2.stringArray_drop hnames rfl hdrop]
  dsimp only
  rw [Y2.valueArray_drop (by simpa using hvalues) rfl rfl hrest]
  exact reply_answered rfl rfl _

/-- A command that sends its status at the end of its tokens. -/
theorem executeCmd_answered {tokens : List BcNode} {done : Executed} (hloop : ∀ x ∈ tokens, isLoop x = false)
    (hcmd : Ensures (Answered tokens) Halt.IsFault ((Y2.init db session).cmd cfg fuel tokens leftover))
    (hdone : executeCmd cfg fuel leftover db session (some tokens) = .ok done) : OneResponse done.sent := by
  unfold executeCmd at hdone
  dsimp only at hdone
  rw [bcPrepare_plain hloop] at hdone
  dsimp only at hdone
  unfold Y2.parse at hdone
  generalize (Y2.init db session).cmd cfg fuel tokens leftover = result at hcmd hdone
  cases result with
  | error halt =>
      obtain ⟨fault, rfl⟩ := hcmd
      cases hdone
  | ok s =>
      obtain ⟨⟨status, hsent⟩, titor, delivered, hlook⟩ := hcmd
      dsimp only [bind, Except.bind] at hdone
      rw [Y2.peek_end hlook] at hdone
      cases hdone
      show OneResponse s.sent
      rw [hsent]
      exact .status status

/-- Without a token in its place a command is rejected at once. -/
theorem executeCmd_rejected {tokens : List BcNode} {done : Executed} (hloop : ∀ x ∈ tokens, isLoop x = false)
    (hstart : tokens = [] ∨ ∃ size xs, tokens = .size size :: xs)
    (hdone : executeCmd cfg fuel leftover db session (some tokens) = .ok done) : OneResponse done.sent := by
  have hcmd : (Y2.init db session).cmd cfg fuel tokens leftover = .error (.abort ⟨db, session, [], []⟩) := by
    rcases hstart with rfl | ⟨size, xs, rfl⟩
    · unfold Y2.cmd
      rw [Y2.peek_end (show (Y2.init db session).look = ⟨⟨([] : List BcNode).length, none, []⟩, none⟩ from rfl)]
      rfl
    · unfold Y2.cmd
      rw [cmd_start rfl]
      rfl
  unfold executeCmd at hdone
  dsimp only at hdone
  rw [bcPrepare_plain hloop] at hdone
  dsimp only at hdone
  unfold Y2.parse at hdone
  rw [hcmd] at hdone
  cases hdone
  exact .status _

end Statuses

/-! ### `DELETE` and `SELECT` -/

/-- The pieces of rows. -/
def rowPieces (rows : List (Nat × Row)) : List Piece := rows.map fun row => .row row.1 row.2

/-- Pieces that a command sends for its rows: a `DELETE` sends none. -/
def RowCmd.SendsRows (cmd : RowCmd) (pieces : List Piece) : Prop :=
  ∃ rows, pieces = rowPieces rows ∧ (¬ cmd.IsSelect → rows = [])

section Rows

variable {cfg : Config} {fuel : Nat} {cmd : RowCmd}

theorem sendsRows_nil : cmd.SendsRows [] := ⟨[], rfl, fun _ => rfl⟩

theorem RowCmd.SendsRows.append {pieces pieces' : List Piece} (h : cmd.SendsRows pieces)
    (h' : cmd.SendsRows pieces') : cmd.SendsRows (pieces ++ pieces') := by
  obtain ⟨rows, rfl, hrows⟩ := h
  obtain ⟨rows', rfl, hrows'⟩ := h'
  refine ⟨rows ++ rows', (List.map_append ..).symm, fun hselect => ?_⟩
  rw [hrows hselect, hrows' hselect]
  rfl

theorem act_sent {row : Titor} {w w' : Work} (h : cmd.act cfg row w = .ok w') :
    ∃ pieces, cmd.SendsRows pieces ∧ w'.sent = w.sent ++ pieces := by
  cases cmd with
  | delete schema table =>
      obtain ⟨db, -, h⟩ := bind_eq_ok.mp h
      cases h
      exact ⟨[], sendsRows_nil, (List.append_nil _).symm⟩
  | select schema table name names =>
      obtain ⟨piece, hpiece, h⟩ := bind_eq_ok.mp h
      obtain ⟨-, -, hpiece⟩ := bind_eq_ok.mp hpiece
      cases hpiece
      cases h
      exact ⟨_, ⟨[(_, _)], rfl, fun hselect => absurd True.intro hselect⟩, rfl⟩

theorem allRows_sent {k : Nat} {w w' : Work} {row row' : Titor}
    (h : Y2.allRows cfg fuel (cmd.act cfg) k w row = .ok (w', row')) :
    ∃ pieces, cmd.SendsRows pieces ∧ w'.sent = w.sent ++ pieces := by
  induction k generalizing w row with
  | zero => cases h
  | succ k ih =>
      rw [Y2.allRows] at h
      split at h
      · obtain ⟨w₁, hact, h⟩ := bind_eq_ok.mp h
        obtain ⟨next, -, h⟩ := bind_eq_ok.mp h
        obtain ⟨first, hfirst, hsent⟩ := act_sent hact
        obtain ⟨rest, hrest, hsent'⟩ := ih h
        refine ⟨first ++ rest, hfirst.append hrest, ?_⟩
        rw [hsent', hsent, List.append_assoc]
      · cases h
        exact ⟨[], sendsRows_nil, (List.append_nil _).symm⟩

/-- What is sent in front of the rows. -/
def RowCmd.Opens (cmd : RowCmd) (pieces : List Piece) : Prop :=
  match cmd with
  | .delete _ _ => pieces = []
  | .select _ _ _ _ => ∃ columns : List Column,
      pieces = [.bodyHeader, .tabheader] ++ columns.map .column ++ [.finish, .tabdata]

theorem openBody_opens {db : Db} {row : Option Titor} {pieces : List Piece}
    (h : cmd.openBody cfg db row = .ok pieces) : cmd.Opens pieces := by
  cases cmd with
  | delete schema table =>
      cases h
      rfl
  | select schema table name names =>
      cases row with
      | none => cases h
      | some t =>
          by_cases hfits : (RowCmd.select schema table name names).Fits cfg (db.pages t.m.gp.header)
          · rw [RowCmd.openBody_eq hfits] at h
            cases h
            exact ⟨_, rfl⟩
          · rw [RowCmd.openBody_full hfits] at h
            cases h

theorem RowCmd.Opens.ne_nil {pieces : List Piece} (h : cmd.Opens pieces) (hselect : cmd.IsSelect) :
    pieces ≠ [] := by
  cases cmd with
  | delete schema table => exact hselect.elim
  | select schema table name names =>
      obtain ⟨columns, rfl⟩ := h
      exact List.cons_ne_nil _ _

theorem oneResponse_rows {pieces rows : List Piece} (hopens : cmd.Opens pieces) (hrows : cmd.SendsRows rows) :
    OneResponse (pieces ++ rows ++ cmd.closing) := by
  obtain ⟨rows, rfl, hnone⟩ := hrows
  cases cmd with
  | delete schema table =>
      rw [show pieces = [] from hopens, hnone id]
      exact .status .ok
  | select schema table name names =>
      obtain ⟨columns, rfl⟩ := hopens
      exact .body columns rows

end Rows

/-! ### Values of the clause -/

/-- No token is out of place. -/
abbrev Evaluates {α : Type} (x : Except Stop α) : Prop := Ensures (fun _ => True) (· ≠ .syntaxError) x

section Evaluates

variable {build : Build} {columns : Columns}

theorem call_evaluates {α : Type} (x : Except Fault α) : Evaluates (call x) := by
  cases x with
  | ok a => exact True.intro
  | error fault => exact nofun

theorem check_evaluates {α : Type} {b : Bool} {x : Except Stop α} (hx : Evaluates x) :
    Evaluates (check b >>= fun _ => x) := by
  cases b with
  | true => exact hx
  | false => exact nofun

theorem Evaluates.then {α β : Type} {x : Except Stop α} {f : α → Except Stop β} (hx : Evaluates x)
    (hf : ∀ a, Evaluates (f a)) : Evaluates (x >>= f) :=
  Ensures.bind hx fun a _ => hf a

theorem evaluates_return {α β : Type} (x : Except Fault α) (f : α → β) :
    Evaluates (call x >>= fun a => pure (f a)) :=
  (call_evaluates x).then fun _ => True.intro

theorem valueAction_evaluates (d : Datum) : Evaluates (valueAction columns d) :=
  Ensures.ite (fun _ => evaluates_return _ _) fun _ => True.intro

theorem mapM_evaluates (ds : List Datum) : Evaluates (ds.mapM (valueAction columns)) := by
  induction ds with
  | nil => exact True.intro
  | cons d ds ih =>
      rw [List.mapM_cons]
      exact (valueAction_evaluates d).then fun _ => Evaluates.then ih fun _ => True.intro

theorem findEqual_evaluates (d : Datum) (ds : List Datum) : Evaluates (findEqual build d ds) := by
  induction ds with
  | nil => exact True.intro
  | cons v ds ih =>
      rw [findEqual]
      exact check_evaluates ((call_evaluates _).then fun cmp => Ensures.ite (fun _ => True.intro) fun _ => ih)

theorem additiveAction_evaluates (op : AdditiveOp) (d1 d2 : Datum) :
    Evaluates (additiveAction build op d1 d2) := by
  cases op with
  | add | sub | concat => exact check_evaluates (call_evaluates _)

theorem multiplicativeAction_evaluates (op : MultiplicativeOp) (d1 d2 : Datum) :
    Evaluates (multiplicativeAction build op d1 d2) := by
  cases op with
  | mul | div | mod => exact check_evaluates (call_evaluates _)

/-- An expression has a value, or stops at a mismatch or a fault. -/
theorem eval_evaluates {n : Nonterminal} (t : Tree n) : Evaluates (t.eval build columns) := by
  induction t with
  | orUnit e ih | andUnit e ih | notUnit e ih | additiveUnit e ih | multiplicativeUnit e ih => exact ih
  | or l r ihl ihr | and l r ihl ihr => exact ihl.then fun _ => ihr.then fun _ => True.intro
  | not e ih | paren e ih => exact ih.then fun _ => True.intro
  | cmpUnit e ih => exact ih.then fun _ => evaluates_return _ _
  | cmp op l r ihl ihr =>
      exact ihl.then fun _ => ihr.then fun _ => check_evaluates (evaluates_return _ _)
  | like l r ihl ihr | notLike l r ihl ihr =>
      exact ihl.then fun _ => ihr.then fun _ => check_evaluates (evaluates_return _ _)
  | isIn l v vs ih | notIn l v vs ih =>
      exact ih.then fun _ => (mapM_evaluates _).then fun _ =>
        (findEqual_evaluates _ _).then fun _ => True.intro
  | between x a b ihx iha ihb | notBetween x a b ihx iha ihb =>
      exact ihx.then fun _ => iha.then fun _ => ihb.then fun _ =>
        check_evaluates (check_evaluates (evaluates_return _ _))
  | additive op l r ihl ihr => exact ihl.then fun _ => ihr.then fun _ => additiveAction_evaluates op _ _
  | multiplicative op l r ihl ihr =>
      exact ihl.then fun _ => ihr.then fun _ => multiplicativeAction_evaluates op _ _
  | value v => exact valueAction_evaluates v

end Evaluates

section Fold

variable {cfg : Config} {cmd : RowCmd} {eval : Titor → Except Stop Int64}

theorem within_eq_ok {α : Type} {w : Work} {x : Except Stop α} {a : α} (h : Y2.within w x = .ok a) : x = .ok a := by
  cases x with
  | ok a' =>
      cases h
      rfl
  | error stop => cases stop <;> cases h

theorem perform_eq_ok {α : Type} {x : Except Fault α} {a : α} (h : Y2.perform x = .ok a) : x = .ok a := by
  cases x with
  | ok a' =>
      cases h
      rfl
  | error fault => cases h

theorem forRow_ok {w w' : Work} {row : Titor} (h : RowCmd.forRow eval (cmd.act cfg) w row = .ok w') :
    (∃ v, eval row = .ok v) ∧ ∃ pieces, cmd.SendsRows pieces ∧ w'.sent = w.sent ++ pieces := by
  obtain ⟨v, hv, h⟩ := bind_eq_ok.mp h
  refine ⟨⟨v, within_eq_ok hv⟩, ?_⟩
  dsimp only at h
  split at h
  · obtain ⟨pieces, hsends, hsent⟩ := act_sent (perform_eq_ok h)
    exact ⟨pieces, hsends, hsent⟩
  · cases h
    exact ⟨[], sendsRows_nil, (List.append_nil _).symm⟩

/-- A row that ends the command without ending the process has no value, and a status was sent for it. -/
theorem forRow_abort {w w' : Work} {row : Titor} (heval : Evaluates (eval row))
    (h : RowCmd.forRow eval (cmd.act cfg) w row = .error (.abort w')) :
    (∀ v, eval row ≠ .ok v) ∧ w'.sent ≠ [] := by
  unfold RowCmd.forRow at h
  cases hv : eval row with
  | ok v =>
      rw [hv] at h
      dsimp only [Y2.within, bind, Except.bind] at h
      split at h
      · cases hact : cmd.act cfg row { w with evaluated := w.evaluated ++ [some row] } with
        | error fault =>
            rw [hact] at h
            cases h
        | ok w₁ =>
            rw [hact] at h
            cases h
      · cases h
  | error stop =>
      rw [hv] at h heval
      refine ⟨nofun, ?_⟩
      cases stop with
      | syntaxError => exact absurd rfl heval
      | mismatch =>
          cases h
          exact List.append_ne_nil_of_right_ne_nil _ (List.cons_ne_nil _ _)
      | fault fault => cases h

theorem foldlM_forRow_ok {rows : List Titor} {w w' : Work}
    (h : rows.foldlM (RowCmd.forRow eval (cmd.act cfg)) w = .ok w') :
    (∀ row ∈ rows, ∃ v, eval row = .ok v) ∧ ∃ pieces, cmd.SendsRows pieces ∧ w'.sent = w.sent ++ pieces := by
  induction rows generalizing w with
  | nil =>
      obtain rfl : w = w' := Except.ok.inj h
      have hnone : ∀ row ∈ ([] : List Titor), ∃ v, eval row = .ok v := nofun
      exact ⟨hnone, [], sendsRows_nil, (List.append_nil _).symm⟩
  | cons row rows ih =>
      rw [List.foldlM_cons] at h
      obtain ⟨w₁, hfirst, h⟩ := bind_eq_ok.mp h
      obtain ⟨hvalue, first, hsends, hsent⟩ := forRow_ok hfirst
      obtain ⟨hvalues, rest, hsends', hsent'⟩ := ih h
      refine ⟨fun r hr => ?_, first ++ rest, hsends.append hsends', ?_⟩
      · rcases List.mem_cons.mp hr with rfl | hr
        · exact hvalue
        · exact hvalues r hr
      · rw [hsent', hsent, List.append_assoc]

theorem foldlM_forRow_abort {rows : List Titor} {w w' : Work} (heval : ∀ row, Evaluates (eval row))
    (h : rows.foldlM (RowCmd.forRow eval (cmd.act cfg)) w = .error (.abort w')) :
    (∃ row ∈ rows, ∀ v, eval row ≠ .ok v) ∧ w'.sent ≠ [] := by
  induction rows generalizing w with
  | nil => cases h
  | cons row rows ih =>
      rw [List.foldlM_cons] at h
      cases hfirst : RowCmd.forRow eval (cmd.act cfg) w row with
      | error halt =>
          rw [hfirst] at h
          cases h
          obtain ⟨hvalue, hsent⟩ := forRow_abort (heval row) hfirst
          exact ⟨⟨row, List.mem_cons_self, hvalue⟩, hsent⟩
      | ok w₁ =>
          rw [hfirst] at h
          obtain ⟨⟨r, hr, hvalue⟩, hsent⟩ := ih h
          exact ⟨⟨r, List.mem_cons_of_mem _ hr, hvalue⟩, hsent⟩

end Fold

/-! ### Behind the clause -/

section Ending

variable {cfg : Config} {fuel : Nat} {db db₁ : Db} {session session₁ : Session} {cmd : RowCmd}
  {clause : Option (Hquery.Tree .or)} {leftover : Option Tran} {status : ScrcStatus} {row : Option Titor}

/-- The parser behind the table of a command. -/
def RowCmd.rest (cmd : RowCmd) (cfg : Config) (fuel : Nat) (clause : Option (Hquery.Tree .or)) (s : Y2) :
    Except Halt Y2 := do
  let s ← s.mbWhere cfg fuel (cmd.loaded clause) (cmd.act cfg) cmd.moves
  RowCmd.atEnd cfg fuel (cmd.loaded clause) (s.send cmd.closing)

theorem parse_rest (hfuel : cmd.tokens.length ≤ fuel)
    (hopen : cmd.opened cfg fuel db session = .ok (db₁, session₁, status, row)) :
    (Y2.init db session).parse cfg fuel (cmd.loaded clause) leftover
      = if status = .ok then do
          let pieces ← Y2.perform (cmd.openBody cfg db₁ row)
          cmd.rest cfg fuel clause (cmd.atClause db₁ session₁ pieces row)
        else cmd.rest cfg fuel clause (cmd.atClause db₁ session₁ [.status status] none) := by
  unfold Y2.parse
  rw [RowCmd.cmd_eq hfuel fun j hj => cmd.loaded_tokens clause hj, hopen]
  dsimp only [Y2.perform, Except.mapError, bind, Except.bind]
  by_cases hstatus : status = .ok
  · rw [if_pos hstatus, if_pos hstatus]
    cases cmd.openBody cfg db₁ row with
    | error fault => rfl
    | ok pieces =>
        dsimp only [pure, Except.pure, RowCmd.rest, bind, Except.bind]
        cases (cmd.atClause db₁ session₁ pieces row).mbWhere cfg fuel (cmd.loaded clause) (cmd.act cfg)
          cmd.moves with
        | error halt => rfl
        | ok s => rfl
  · rw [if_neg hstatus, if_neg hstatus]
    dsimp only [pure, Except.pure, RowCmd.rest, bind, Except.bind]
    cases (cmd.atClause db₁ session₁ [.status status] none).mbWhere cfg fuel (cmd.loaded clause) (cmd.act cfg)
      cmd.moves with
    | error halt => rfl
    | ok s => rfl

theorem opened_of_done {done : Executed} (hfuel : cmd.tokens.length ≤ fuel)
    (hdone : executeCmd cfg fuel leftover db session (some (cmd.statement clause)) = .ok done) :
    ∃ r, cmd.opened cfg fuel db session = .ok r := by
  cases hopen : cmd.opened cfg fuel db session with
  | ok r => exact ⟨r, rfl⟩
  | error fault =>
      have hparse : (Y2.init db session).parse cfg fuel (cmd.loaded clause) leftover = .error (.fault fault) := by
        unfold Y2.parse
        rw [RowCmd.cmd_eq hfuel fun j hj => cmd.loaded_tokens clause hj, hopen]
        rfl
      unfold executeCmd at hdone
      dsimp only at hdone
      rw [cmd.bcPrepare_statement clause] at hdone
      dsimp only at hdone
      rw [hparse] at hdone
      cases hdone

/-- What a command sends is what its parser has sent, with the status of a parser that stops behind it. -/
theorem executeCmd_done {done : Executed}
    (hdone : executeCmd cfg fuel leftover db session (some (cmd.statement clause)) = .ok done) :
    (∃ s, (Y2.init db session).parse cfg fuel (cmd.loaded clause) leftover = .ok s ∧ done.sent = s.sent)
      ∨ ∃ w, (Y2.init db session).parse cfg fuel (cmd.loaded clause) leftover = .error (.abort w)
        ∧ done.sent = w.sent ++ [.status .parserError] := by
  unfold executeCmd at hdone
  dsimp only at hdone
  rw [cmd.bcPrepare_statement clause] at hdone
  dsimp only at hdone
  generalize (Y2.init db session).parse cfg fuel (cmd.loaded clause) leftover = result at hdone ⊢
  cases result with
  | ok s =>
      cases hdone
      exact Or.inl ⟨s, rfl, rfl⟩
  | error halt =>
      cases halt with
      | abort w =>
          cases hdone
          exact Or.inr ⟨w, rfl, rfl⟩
      | fault fault => cases hdone

/-- A table that is not found is reported, and the command goes on. -/
theorem rest_unknown (hfuel : 7 ≤ fuel) :
    Ensures (fun s => ¬ OneResponse s.sent) (Halt.Left (· ≠ []))
      (cmd.rest cfg fuel clause (cmd.atClause db₁ session₁ [.status status] none)) := by
  have hclosing : ¬ OneResponse ([.status status] ++ cmd.closing) := by
    cases cmd with
    | delete schema table => exact not_oneResponse (List.cons_ne_nil _ _)
    | select schema table name names => exact not_oneResponse_finish
  have hmb := @mbWhere_sent cfg fuel db₁ session₁ cmd clause hfuel [.status status]
  refine (hmb.mono (fun _ h => h) fun halt hhalt w hw => ?_).bind fun s hs => ?_
  · rw [hhalt w hw]
    exact List.cons_ne_nil _ _
  · have hsent : (s.send cmd.closing).sent = [.status status] ++ cmd.closing := by
      show s.sent ++ cmd.closing = _
      rw [hs]
    have hne : (s.send cmd.closing).sent ≠ [] := by
      rw [hsent]
      exact List.cons_ne_nil _ _
    unfold RowCmd.atEnd
    apply (peek_sent (P := (· ≠ [])) hne fun sent _ =>
      List.append_ne_nil_of_right_ne_nil _ (List.cons_ne_nil _ _)).bind
    rintro ⟨s', ahead⟩ hs'
    have hs' : s'.sent = [.status status] ++ cmd.closing := Eq.trans hs' hsent
    apply Ensures.ite
    · intro _
      apply ensures_ok
      rw [hs']
      exact hclosing
    · intro _ w hw
      cases hw
      rw [show s'.toWork.sent = _ from hs']
      exact List.cons_ne_nil _ _

theorem atEnd_send {tokens : List BcNode} {s : Y2} {pieces : List Piece} (h : s.look.yychar = some none) :
    RowCmd.atEnd cfg fuel tokens (s.send pieces) = .ok (s.send pieces) := by
  have hlook : (s.send pieces).look = ⟨s.look.lexer, some none⟩ := by
    rw [← h]
    rfl
  unfold RowCmd.atEnd
  rw [peek_ahead hlook]
  rfl

theorem mbWhere_all {sent : List Piece} :
    Ensures (fun s => s.look.yychar = some none ∧ ∃ rows, cmd.SendsRows rows ∧ s.sent = sent ++ rows)
      Halt.IsFault
      ((cmd.atClause db₁ session₁ sent row).mbWhere cfg fuel (cmd.loaded none) (cmd.act cfg) cmd.moves) := by
  have hlook : (cmd.atClause db₁ session₁ sent row).look = ⟨⟨(cmd.loaded none).length, row, cmd.tokens⟩, none⟩ :=
    rfl
  unfold Y2.mbWhere
  rw [Y2.peek_end hlook]
  dsimp only [bind, Except.bind]
  rw [if_neg nofun]
  cases row with
  | none => exact ensures_ok ⟨rfl, [], sendsRows_nil, (List.append_nil _).symm⟩
  | some t =>
      apply Ensures.ite
      · intro _
        apply (perform_ensures _).bind_any
        rintro ⟨w, last⟩ hall
        exact ensures_ok ⟨rfl, allRows_sent (perform_eq_ok hall)⟩
      · exact fun _ => ensures_ok ⟨rfl, [], sendsRows_nil, (List.append_nil _).symm⟩

/-- A command without a clause whose table was found is answered once. -/
theorem rest_all {pieces : List Piece} (hopens : cmd.Opens pieces) :
    Ensures (fun s => OneResponse s.sent) Halt.IsFault
      (cmd.rest cfg fuel none (cmd.atClause db₁ session₁ pieces row)) := by
  apply mbWhere_all.bind
  rintro s ⟨hlook, rows, hrows, hsent⟩
  rw [atEnd_send hlook]
  apply ensures_ok
  rw [show (s.send cmd.closing).sent = s.sent ++ cmd.closing from rfl, hsent]
  exact oneResponse_rows hopens hrows

variable {e : Hquery.Tree .or}

/-- The clause has a value for a row. -/
def RowCmd.HasValue (cfg : Config) (db : Db) (e : Hquery.Tree .or) (row : Titor) : Prop :=
  ∃ v, e.translate.eval cfg.build (titorColumns cfg db (some row)) = .ok v

/-- With a row to start from a command with a clause is answered once if the clause has a value for all of them. -/
theorem rest_rows {pieces : List Piece} {first : Titor} {rows : List Titor} (hopens : cmd.Opens pieces)
    (hcost : e.translate.cost + 1 ≤ fuel) (hrows : rows.length < fuel)
    (hscan : Scan cfg fuel db₁ (some first) (first :: rows)) :
    Ensures (fun s => OneResponse s.sent ∧ ∀ r ∈ first :: rows, RowCmd.HasValue cfg db₁ e r)
      (fun halt => ∀ w, halt = .abort w → w.sent ≠ [] ∧ ∃ r ∈ first :: rows, ¬ RowCmd.HasValue cfg db₁ e r)
      (cmd.rest cfg fuel (some e) (cmd.atClause db₁ session₁ pieces (some first))) := by
  have hloop : ∀ x ∈ e.translate.tokens, isLoop x = false := by
    rw [e.translate_tokens]
    exact emitted_isLoop e
  have hends := @RowCmd.mbWhere_rows cfg fuel cmd db₁ session₁ pieces e.translate first rows hcost hrows hloop
    hscan
  unfold RowCmd.rest
  rw [show cmd.loaded (some e) = prepared cmd.tokens e.translate.tokens by rw [e.translate_tokens]; rfl]
  cases hfold : (first :: rows).foldlM
      (RowCmd.forRow (fun row => e.translate.eval cfg.build (titorColumns cfg db₁ (some row))) (cmd.act cfg))
      ⟨db₁, session₁, pieces, []⟩ with
  | ok w =>
      rw [hfold] at hends
      obtain ⟨hvalues, sent, hsends, hsent⟩ := foldlM_forRow_ok hfold
      obtain ⟨s, hs, rfl, hlook, -⟩ := hends
      rw [hs]
      dsimp only [bind, Except.bind]
      rw [atEnd_send hlook]
      refine ensures_ok ⟨?_, hvalues⟩
      rw [show (s.send cmd.closing).sent = s.sent ++ cmd.closing from rfl, hsent]
      exact oneResponse_rows hopens hsends
  | error halt =>
      rw [hfold] at hends
      rw [show _ = Except.error halt from hends]
      intro w hw
      subst hw
      obtain ⟨⟨r, hr, hvalue⟩, hsent⟩ := foldlM_forRow_abort (fun row => eval_evaluates e.translate) hfold
      exact ⟨hsent, r, hr, fun ⟨v, hv⟩ => hvalue v hv⟩

/-- A `DELETE` or a `SELECT` is answered once if its table is found and its clause has a value for every row that
the scan comes to; a `SELECT` with a clause must have such a row. -/
def RowCmd.Answerable (cfg : Config) (fuel : Nat) (db : Db) (session : Session) (cmd : RowCmd)
    (clause : Option (Hquery.Tree .or)) : Prop :=
  ∃ db₁ session₁ row, cmd.opened cfg fuel db session = .ok (db₁, session₁, .ok, row) ∧
    ∀ e, clause = some e → (cmd.IsSelect → titorValid db₁ row = true) ∧
      ∀ rows, Scan cfg fuel db₁ row rows → ∀ r ∈ rows, RowCmd.HasValue cfg db₁ e r

theorem RowCmd.answerable_iff
    (hopen : cmd.opened cfg fuel db session = .ok (db₁, session₁, .ok, row)) :
    cmd.Answerable cfg fuel db session clause ↔
      ∀ e, clause = some e → (cmd.IsSelect → titorValid db₁ row = true) ∧
        ∀ rows, Scan cfg fuel db₁ row rows → ∀ r ∈ rows, RowCmd.HasValue cfg db₁ e r := by
  constructor
  · rintro ⟨db₂, session₂, row₂, hopen₂, hclause⟩
    rw [hopen] at hopen₂
    cases hopen₂
    exact hclause
  · exact fun hclause => ⟨db₁, session₁, row, hopen, hclause⟩

theorem rest_none {pieces : List Piece} (hseven : 7 ≤ fuel) (hrow : titorValid db₁ row = false) :
    cmd.rest cfg fuel (some e) (cmd.atClause db₁ session₁ pieces row)
      = .error (.abort ⟨db₁, session₁, pieces, []⟩) := by
  unfold RowCmd.rest
  rw [show cmd.loaded (some e) = prepared cmd.tokens e.translate.tokens by rw [e.translate_tokens]; rfl,
    RowCmd.mbWhere_none hseven hrow]
  rfl

/-- Fuel for a clause. -/
def clauseFuel : Option (Hquery.Tree .or) → Nat
  | none => 0
  | some e => e.translate.cost + 1

/-- A command that found its table is answered once if and only if it is answerable. -/
theorem found_iff {done : Executed} (hseven : 7 ≤ fuel) (hcost : clauseFuel clause ≤ fuel)
    (hfuel : cmd.tokens.length ≤ fuel)
    (hopen : cmd.opened cfg fuel db session = .ok (db₁, session₁, .ok, row))
    (hscan : clause ≠ none → ∃ rows, rows.length ≤ fuel ∧ Scan cfg fuel db₁ row rows)
    (hdone : executeCmd cfg fuel leftover db session (some (cmd.statement clause)) = .ok done) :
    OneResponse done.sent ↔ cmd.Answerable cfg fuel db session clause := by
  rw [RowCmd.answerable_iff hopen]
  have hdone := executeCmd_done hdone
  rw [parse_rest hfuel hopen, if_pos rfl] at hdone
  cases hbody : cmd.openBody cfg db₁ row with
  | error fault =>
      rw [hbody] at hdone
      obtain ⟨s, hs, -⟩ | ⟨w, hw, -⟩ := hdone
      · cases hs
      · cases hw
  | ok pieces =>
      have hopens := openBody_opens hbody
      rw [hbody] at hdone
      dsimp only [Y2.perform, Except.mapError, bind, Except.bind] at hdone
      cases clause with
      | none =>
          have hall := @rest_all cfg fuel db₁ session₁ cmd row pieces hopens
          obtain ⟨s, hs, hsent⟩ | ⟨w, hw, -⟩ := hdone
          · rw [hsent]
            exact iff_of_true (hall.of_ok hs) nofun
          · obtain ⟨fault, hfault⟩ := hall.of_error hw
            cases hfault
      | some e =>
          obtain ⟨rows, hlength, hrows⟩ := hscan (Option.some_ne_none e)
          by_cases hvalid : titorValid db₁ row = true
          · obtain _ | hinvalid | ⟨hvalid', hcontent, hvisible, hnext, htail⟩ := hrows
            · cases hvalid
            · exact absurd hvalid (Bool.eq_false_iff.mp hinvalid)
            · have hrows := Scan.row hvalid' hcontent hvisible hnext htail
              have hended := @rest_rows cfg fuel db₁ session₁ cmd e pieces _ _ hopens hcost
                (Nat.lt_of_succ_le hlength) hrows
              obtain ⟨s, hs, hsent⟩ | ⟨w, hw, hsent⟩ := hdone
              · obtain ⟨hone, hvalues⟩ := hended.of_ok hs
                rw [hsent]
                refine iff_of_true hone fun e' he => ?_
                cases he
                refine ⟨fun _ => hvalid, fun rows' hrows' r hr => hvalues r ?_⟩
                rw [hrows.unique hrows']
                exact hr
              · obtain ⟨hne, r, hr, hvalue⟩ := hended.of_error hw w rfl
                rw [hsent]
                refine iff_of_false (not_oneResponse hne) fun hclause => hvalue ?_
                exact (hclause e rfl).2 _ hrows r hr
          · have hinvalid : titorValid db₁ row = false := Bool.eq_false_iff.mpr hvalid
            rw [rest_none hseven hinvalid] at hdone
            obtain ⟨s, hs, -⟩ | ⟨w, hw, hsent⟩ := hdone
            · cases hs
            · cases hw
              rw [hsent]
              cases cmd with
              | delete schema table =>
                  rw [show pieces = [] from hopens]
                  refine iff_of_true (.status _) fun e' he => ⟨nofun, fun rows' hrows' r hr => ?_⟩
                  cases hrows' with
                  | undef => cases hr
                  | done => cases hr
                  | row hvalid' =>
                      exact absurd hvalid' hvalid
              | select schema table name names =>
                  refine iff_of_false (not_oneResponse (hopens.ne_nil True.intro)) fun hclause => ?_
                  exact hvalid ((hclause e rfl).1 True.intro)

/-- A command that did not find its table is answered twice. -/
theorem unknown_iff {done : Executed} (hseven : 7 ≤ fuel) (hfuel : cmd.tokens.length ≤ fuel)
    (hopen : cmd.opened cfg fuel db session = .ok (db₁, session₁, status, row)) (hstatus : status ≠ .ok)
    (hdone : executeCmd cfg fuel leftover db session (some (cmd.statement clause)) = .ok done) :
    OneResponse done.sent ↔ cmd.Answerable cfg fuel db session clause := by
  have hnot : ¬ cmd.Answerable cfg fuel db session clause := by
    rintro ⟨db₂, session₂, row₂, hopen₂, -⟩
    rw [hopen] at hopen₂
    cases hopen₂
    exact hstatus rfl
  refine iff_of_false ?_ hnot
  have hdone := executeCmd_done hdone
  rw [parse_rest hfuel hopen, if_neg hstatus] at hdone
  have hrest := @rest_unknown cfg fuel db₁ session₁ cmd clause status hseven
  obtain ⟨s, hs, hsent⟩ | ⟨w, hw, hsent⟩ := hdone
  · rw [hsent]
    exact hrest.of_ok hs
  · rw [hsent]
    exact not_oneResponse (hrest.of_error hw w rfl)

end Ending

/-! ### All commands -/

/-- Fuel for a command. -/
def commandFuel : Hquery.Cmd → Nat
  | .createTable _ _ _ decls => decls.length + 2
  | .insert _ _ _ names _ values => names.length + values.length + 2
  | .row cmd clause => cmd.tokens.length + clauseFuel clause + 7
  | _ => 0

/-- The commands that are answered once: a `DELETE` or a `SELECT` that has what it needs, and all others. -/
def Answerable (cfg : Config) (fuel : Nat) (db : Db) (session : Session) : Hquery.Cmd → Prop
  | .row cmd clause => cmd.Answerable cfg fuel db session clause
  | _ => True

/-- No action of another command than `DELETE` and `SELECT` puts a loop. -/
theorem emitted_noLoop {c : Hquery.Cmd} {catalog : Bool} (hc : ∀ cmd clause, c ≠ .row cmd clause) :
    ∀ x ∈ c.emitted catalog, isLoop x = false := by
  have hdecls (ds : List Hquery.ColumnDecl) :
      ∀ x ∈ ds.flatMap Hquery.ColumnDecl.emitted, isLoop x = false := by
    intro x hx
    obtain ⟨d, -, hx⟩ := List.mem_flatMap.mp hx
    simp only [Hquery.ColumnDecl.emitted, Hquery.ColumnType.emitted, List.mem_append, List.mem_cons,
      List.not_mem_nil, or_false] at hx
    obtain (rfl | rfl) | rfl := hx
    · rfl
    · rfl
    · rfl
  intro x hx
  cases c with
  | createTable schema table d ds =>
      cases catalog with
      | true =>
          obtain hx | hx := List.mem_append.mp hx
          · obtain hx | hx := List.mem_append.mp hx
            · simp only [List.mem_cons, List.not_mem_nil, or_false] at hx
              obtain rfl | rfl | rfl | rfl | rfl := hx <;> rfl
            · exact hdecls _ x hx
          · obtain rfl := List.mem_singleton.mp hx
            rfl
      | false => exact hdecls _ x hx
  | row cmd clause => exact absurd rfl (hc cmd clause)
  | insert schema table name names v vs =>
      simp only [Hquery.Cmd.emitted, List.mem_append, List.mem_cons, List.mem_map, List.not_mem_nil,
        or_false] at hx
      obtain ((((rfl | rfl | rfl | rfl) | ⟨name, -, rfl⟩) | rfl | rfl) | ⟨value, -, rfl⟩) | rfl := hx <;> rfl
  | createSchema name =>
      cases catalog with
      | true =>
          simp only [Hquery.Cmd.emitted, if_true, List.mem_cons, List.not_mem_nil, or_false] at hx
          obtain rfl | rfl | rfl := hx <;> rfl
      | false => cases hx
  | createUser name | createCatalog name =>
      simp only [Hquery.Cmd.emitted, List.mem_cons, List.not_mem_nil, or_false] at hx
      obtain rfl | rfl | rfl := hx <;> rfl
  | startTransaction | commit | rollback =>
      obtain rfl := List.mem_singleton.mp hx
      rfl

/-- No command names a type of no group. -/
theorem emitted_typed {c : Hquery.Cmd} {catalog : Bool} {type : DatumType}
    (htype : BcNode.type type ∈ c.emitted catalog) : type.group ≠ .unknown := by
  have hdecls (ds : List Hquery.ColumnDecl) (h : BcNode.type type ∈ ds.flatMap Hquery.ColumnDecl.emitted) :
      type.group ≠ .unknown := by
    obtain ⟨d, -, h⟩ := List.mem_flatMap.mp h
    simp only [Hquery.ColumnDecl.emitted, Hquery.ColumnType.emitted, List.mem_append, List.mem_cons, reduceCtorEq,
      BcNode.type.injEq, List.not_mem_nil, false_or, or_false] at h
    subst h
    cases d.type <;> exact nofun
  cases c with
  | createTable schema table d ds =>
      cases catalog with
      | true =>
          obtain h | h := List.mem_append.mp htype
          · obtain h | h := List.mem_append.mp h
            · simp at h
            · exact hdecls _ h
          · simp at h
      | false => exact hdecls _ htype
  | row cmd clause => exact absurd htype (type_not_mem cmd clause type)
  | createSchema name =>
      cases catalog with
      | true => simp [Hquery.Cmd.emitted] at htype
      | false => cases htype
  | insert schema table name names v vs => simp [Hquery.Cmd.emitted] at htype
  | createUser name | createCatalog name | startTransaction | commit | rollback =>
      simp [Hquery.Cmd.emitted] at htype

/-- The tokens of a command are answered with one response if and only if the command has what it needs. -/
theorem answered_iff {cfg : Config} {fuel : Nat} {leftover : Option Tran} {db : Db} {session : Session}
    {c : Hquery.Cmd} {done : Executed} (hfuel : commandFuel c ≤ fuel)
    (hscan : ∀ cmd e db₁ session₁ row, c = .row cmd (some e) →
      cmd.opened cfg fuel db session = .ok (db₁, session₁, .ok, row) →
      ∃ rows, rows.length ≤ fuel ∧ Scan cfg fuel db₁ row rows)
    (hdone : executeCmd cfg fuel leftover db session (some (c.emitted session.catalog.isSome)) = .ok done) :
    OneResponse done.sent ↔ Answerable cfg fuel db session c := by
  cases c with
  | row cmd clause =>
      have hparts : cmd.tokens.length + clauseFuel clause + 7 ≤ fuel := hfuel
      cases hopen : cmd.opened cfg fuel db session with
      | error fault =>
          obtain ⟨r, hr⟩ := opened_of_done (by omega) hdone
          rw [hopen] at hr
          cases hr
      | ok r =>
          obtain ⟨db₁, session₁, status, row⟩ := r
          by_cases hstatus : status = .ok
          · subst hstatus
            refine found_iff (by omega) (by omega) (by omega) hopen (fun hclause => ?_) hdone
            obtain ⟨e, rfl⟩ := Option.ne_none_iff_exists'.mp hclause
            exact hscan cmd e db₁ session₁ row rfl hopen
          · exact unknown_iff (by omega) (by omega) hopen hstatus hdone
  | createTable schema table d ds =>
      refine iff_of_true ?_ True.intro
      have hloop := @emitted_noLoop (.createTable schema table d ds) session.catalog.isSome nofun
      cases hcatalog : session.catalog.isSome with
      | true =>
          rw [hcatalog] at hdone hloop
          exact executeCmd_answered hloop (createTable_answered (Nat.lt_of_succ_le hfuel) rfl) hdone
      | false =>
          rw [hcatalog] at hdone hloop
          exact executeCmd_rejected hloop (Or.inr ⟨_, _, rfl⟩) hdone
  | insert schema table name names v vs =>
      refine iff_of_true ?_ True.intro
      have hparts : names.length + vs.length + 2 ≤ fuel := hfuel
      have hloop := @emitted_noLoop (.insert schema table name names v vs) session.catalog.isSome nofun
      have hnames : (name :: names).length < fuel := by
        rw [List.length_cons]
        omega
      have hvalues : (v :: vs).length < fuel := by
        rw [List.length_cons]
        omega
      exact executeCmd_answered hloop (insert_answered hnames hvalues rfl) hdone
  | createSchema name =>
      refine iff_of_true ?_ True.intro
      have hloop := @emitted_noLoop (.createSchema name) session.catalog.isSome nofun
      cases hcatalog : session.catalog.isSome with
      | true =>
          rw [hcatalog] at hdone hloop
          exact executeCmd_answered hloop (create_name_answered (Or.inr (Or.inr rfl))) hdone
      | false =>
          rw [hcatalog] at hdone hloop
          exact executeCmd_rejected hloop (Or.inl rfl) hdone
  | createUser name =>
      have hloop := @emitted_noLoop (.createUser name) session.catalog.isSome nofun
      exact iff_of_true (executeCmd_answered hloop (create_name_answered (Or.inl rfl)) hdone) True.intro
  | createCatalog name =>
      have hloop := @emitted_noLoop (.createCatalog name) session.catalog.isSome nofun
      exact iff_of_true (executeCmd_answered hloop (create_name_answered (Or.inr (Or.inl rfl))) hdone) True.intro
  | startTransaction =>
      have hloop := @emitted_noLoop .startTransaction session.catalog.isSome nofun
      exact iff_of_true (executeCmd_answered hloop (tran_answered (Or.inl rfl)) hdone) True.intro
  | commit =>
      have hloop := @emitted_noLoop .commit session.catalog.isSome nofun
      exact iff_of_true (executeCmd_answered hloop (tran_answered (Or.inr (Or.inl rfl))) hdone) True.intro
  | rollback =>
      have hloop := @emitted_noLoop .rollback session.catalog.isSome nofun
      exact iff_of_true (executeCmd_answered hloop (tran_answered (Or.inr (Or.inr rfl))) hdone) True.intro

/-- What the second parser leaves of the database is what `execute_cmd` leaves. -/
theorem executeCmd_parsed {cfg : Config} {fuel : Nat} {leftover : Option Tran} {db db' : Db} {session : Session}
    {tokens : List BcNode}
    (h : (RowCmd.parsed cfg fuel leftover tokens db session).Leaves db') :
    ∃ done, executeCmd cfg fuel leftover db session (some tokens) = .ok done ∧ done.db = db' := by
  unfold RowCmd.parsed at h
  unfold executeCmd
  dsimp only
  generalize bcPrepare tokens = prepared at h ⊢
  cases prepared with
  | error status => exact ⟨_, rfl, h⟩
  | ok tokens =>
      dsimp only at h ⊢
      generalize (Y2.init db session).parse cfg fuel tokens leftover = result at h ⊢
      cases result with
      | ok s => exact ⟨_, rfl, h⟩
      | error halt =>
          cases halt with
          | abort w => exact ⟨_, rfl, h⟩
          | fault fault => exact h.elim

theorem executeCmd_accepted {cfg : Config} {fuel : Nat} {leftover : Option Tran} {db : Db} {session : Session}
    {tokens delivered : List BcNode} {w : Work}
    (h : RowCmd.parsed cfg fuel leftover tokens db session = .accepted w delivered) :
    executeCmd cfg fuel leftover db session (some tokens) = .ok ⟨w.db, w.session, w.sent, true⟩ := by
  unfold RowCmd.parsed at h
  unfold executeCmd
  dsimp only
  generalize bcPrepare tokens = prepared at h ⊢
  cases prepared with
  | error status => cases h
  | ok tokens =>
      dsimp only at h ⊢
      generalize (Y2.init db session).parse cfg fuel tokens leftover = result at h ⊢
      cases result with
      | ok s =>
          cases h
          rfl
      | error halt => cases halt <;> cases h

theorem opening_opens {cmd : RowCmd} (header : Grid) : cmd.Opens (cmd.opening header) := by
  cases cmd with
  | delete schema table => rfl
  | select schema table name names => exact ⟨_, rfl⟩

/-- A command that has done for all rows what it is to do is answered once. -/
theorem reference_answered {cfg : Config} {cmd : RowCmd} {e : Hquery.Tree .or} {header : Grid} {db : Db}
    {session : Session} {rows : List Titor} {w : Work} {delivered : List BcNode}
    (h : cmd.reference cfg e header db session rows = .accepted w delivered) : OneResponse w.sent := by
  unfold RowCmd.reference at h
  dsimp only at h
  generalize hfold : rows.foldlM (RowCmd.forRow (fun row => e.translate.eval cfg.build
    (titorColumns cfg db (some row))) (cmd.act cfg)) ⟨db, session, cmd.opening header, []⟩ = result at h
  cases result with
  | ok w' =>
      cases h
      obtain ⟨-, sent, hsends, hsent⟩ := foldlM_forRow_ok hfold
      rw [show (w'.send cmd.closing).sent = w'.sent ++ cmd.closing from rfl, hsent]
      exact oneResponse_rows (opening_opens header) hsends
  | error halt => cases halt <;> cases h

/-- `DELETE FROM s.t WHERE a = 1` finds the row and is accepted with it. -/
theorem opened_insertT :
    ∃ s hist db₁ session₁, Machine.exec (Cluster.execute ⟨.debug, 4096⟩) newCluster [createT, insertT] = .ok (s, hist)
      ∧ (RowCmd.delete [115] [116]).opened ⟨.debug, 4096⟩ 20 s.db (s.sessions 0)
          = .ok (db₁, session₁, .ok, some (insertedRow ⟨1, true⟩))
      ∧ Scan ⟨.debug, 4096⟩ 20 db₁ (some (insertedRow ⟨1, true⟩)) [insertedRow ⟨1, true⟩]
      ∧ ∃ w delivered, (RowCmd.delete [115] [116]).reference ⟨.debug, 4096⟩ aIsOne
          ((RowCmd.delete [115] [116]).header s.db (s.sessions 0)) db₁ session₁ [insertedRow ⟨1, true⟩]
          = .accepted w delivered := by
  refine ⟨_, _, _, _, rfl, rfl, ?_⟩
  exact ⟨.row (by decide) rfl rfl rfl (.done (by decide)), _, _, rfl⟩

end Scroller.Execute

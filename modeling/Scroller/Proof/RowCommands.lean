import Scroller.Proof.BcTokens
import Scroller.Proof.WhereLoop

/-!
# Commands with a clause

The second parser on the bytecode of a `DELETE` or a `SELECT` with a clause. With a visible row it does what the
command is to do; without one the clause is a syntax error.
-/

namespace Scroller.Execute

/-! ### Tokens of a command -/

namespace Y2

section Tokens

variable {cfg : Config} {fuel : Nat} {tokens : List BcNode} {s : Y2} {i : Nat} {titor : Option Titor}
  {delivered : List BcNode}

theorem peek_token {x : BcNode} (hlook : s.look = ⟨⟨i, titor, delivered⟩, none⟩)
    (hx : tokens[i]? = some x) (hloop : isLoop x = false) :
    s.peek cfg fuel tokens
      = .ok ({ s with look := ⟨⟨i + 1, titor, delivered ++ [x]⟩, some (some x)⟩ }, some x) := by
  unfold peek Look.peek
  rw [hlook]
  dsimp only [y2lexer]
  rw [y2lex_token hx hloop]
  rfl

theorem expect_token {x : BcNode} (hlook : s.look = ⟨⟨i, titor, delivered⟩, none⟩)
    (hx : tokens[i]? = some x) (hloop : isLoop x = false) :
    s.expect cfg fuel tokens x
      = .ok { s with look := ⟨⟨i + 1, titor, delivered ++ [x]⟩, none⟩ } := by
  unfold expect
  rw [peek_token hlook hx hloop]
  exact if_pos rfl

theorem expect_ahead {x : BcNode} {l : BcItor} (hlook : s.look = ⟨l, some (some x)⟩) :
    s.expect cfg fuel tokens x = .ok { s with look := ⟨l, none⟩ } := by
  unfold expect
  rw [peek_ahead hlook]
  dsimp only [bind, Except.bind]
  rw [if_pos rfl, shift, hlook]
  rfl

theorem string_token {str : List UInt8} (hlook : s.look = ⟨⟨i, titor, delivered⟩, none⟩)
    (hx : tokens[i]? = some (.string str)) :
    s.string cfg fuel tokens
      = .ok ({ s with look := ⟨⟨i + 1, titor, delivered ++ [.string str]⟩, none⟩ }, str) := by
  unfold string
  rw [peek_token hlook hx rfl]
  rfl

/-- The names of a list up to `ARRAY_END`. -/
theorem strings_tokens {names : List (List UInt8)} {k : Nat} (hk : names.length < k)
    (hlook : s.look = ⟨⟨i, titor, delivered⟩, none⟩)
    (hnames : ∀ j, j < names.length → tokens[i + j]? = (names.map BcNode.string)[j]?)
    (hend : tokens[i + names.length]? = some .arrayEnd) :
    s.strings cfg fuel tokens k
      = .ok ({ s with look := ⟨⟨i + names.length + 1, titor,
          delivered ++ names.map .string ++ [.arrayEnd]⟩, some (some .arrayEnd)⟩ }, names) := by
  induction names generalizing s i delivered k with
  | nil =>
      obtain ⟨k, rfl⟩ := Nat.exists_eq_succ_of_ne_zero (Nat.ne_zero_of_lt hk)
      rw [Nat.succ_eq_add_one, strings, peek_token hlook hend rfl]
      simp [bind, Except.bind, pure, Except.pure]
  | cons name names ih =>
      obtain ⟨k, rfl⟩ := Nat.exists_eq_succ_of_ne_zero (Nat.ne_zero_of_lt hk)
      have hname : tokens[i]? = some (.string name) := hnames 0 (Nat.zero_lt_succ _)
      rw [Nat.succ_eq_add_one, strings, peek_token hlook hname rfl]
      dsimp only [bind, Except.bind, shift, Look.shift]
      have hrest := ih (s := { s with look := ⟨⟨i + 1, titor, delivered ++ [.string name]⟩, none⟩ })
        (Nat.lt_of_succ_lt_succ hk) rfl
        (fun j hj => by
          rw [Nat.add_assoc, Nat.add_comm 1 j]
          exact hnames (j + 1) (Nat.succ_lt_succ hj))
        (by rw [Nat.add_assoc, Nat.add_comm 1]; exact hend)
      rw [hrest]
      simp [pure, Except.pure, Nat.add_comm, Nat.add_left_comm]

theorem stringArray_tokens {name : List UInt8} {names : List (List UInt8)}
    (hfuel : (name :: names).length < fuel) (hlook : s.look = ⟨⟨i, titor, delivered⟩, none⟩)
    (hbegin : tokens[i]? = some .arrayBegin)
    (hnames : ∀ j, j < (name :: names).length →
      tokens[i + 1 + j]? = ((name :: names).map BcNode.string)[j]?)
    (hend : tokens[i + 1 + (name :: names).length]? = some .arrayEnd) :
    s.stringArray cfg fuel tokens
      = .ok ({ s with look := ⟨⟨i + 1 + (name :: names).length + 1, titor,
          delivered ++ [.arrayBegin] ++ (name :: names).map .string ++ [.arrayEnd]⟩, none⟩ },
          name :: names) := by
  unfold stringArray
  rw [expect_token hlook hbegin rfl]
  dsimp only [bind, Except.bind]
  rw [strings_tokens hfuel rfl hnames hend]
  dsimp only
  rw [if_neg (List.cons_ne_nil name names), expect_ahead rfl]
  rfl

end Tokens

end Y2

theorem parseOr_end {L E : Type} {V : Nonterminal → Type} {W : Type} {lexer : Lexer L E}
    {actions : Actions E V W} {fuel : Nat} {s : Look L} {l : L} (hfuel : 7 ≤ fuel)
    (hs : Shows lexer s [none] l) : parseOr lexer actions fuel s = .error lexer.syntaxError := by
  obtain ⟨fuel, rfl⟩ := Nat.exists_eq_add_of_le' hfuel
  obtain ⟨_, hpeek, rfl⟩ := hs.peek
  have hnot : parseNot lexer actions (fuel + 5) s = .error lexer.syntaxError := by
    rw [parseNot, hpeek]
    rfl
  rw [parseOr]
  unfold finish
  rw [parseAnd]
  unfold finish
  rw [hnot]
  rfl

/-! ### Commands up to their clause -/

namespace RowCmd

/-- The header of the body that a command sends. -/
def openBody (cfg : Config) (db : Db) (row : Option Titor) : RowCmd → Except Fault (List Piece)
  | .delete _ _ => .ok []
  | .select _ _ _ _ => Y2.openBody cfg db row

/-- Whether the loop without a clause moves `cmd->titor`. -/
def moves : RowCmd → Bool
  | .delete _ _ => true
  | .select _ _ _ _ => false

/-- The parser in front of the clause. -/
def atClause (cmd : RowCmd) (db : Db) (session : Session) (sent : List Piece) (row : Option Titor) : Y2 :=
  { db, session, sent, evaluated := [], titor := row, look := ⟨⟨cmd.tokens.length, row, cmd.tokens⟩, none⟩ }

theorem select_names {schema table : List UInt8} {names : List (List UInt8)} {name : List UInt8} {j : Nat}
    (hj : j < (name :: names).length) :
    (RowCmd.select schema table name names).tokens[0 + 1 + 1 + j]?
      = ((name :: names).map BcNode.string)[j]? := by
  rw [RowCmd.tokens, List.append_assoc, List.getElem?_append_right (by simp),
    List.getElem?_append_left (by simpa using hj)]
  simp

theorem select_last {schema table : List UInt8} {names : List (List UInt8)} {name : List UInt8} {j : Nat} :
    (RowCmd.select schema table name names).tokens[0 + 1 + 1 + (name :: names).length + j]?
      = [BcNode.arrayEnd, .string schema, .string table][j]? := by
  rw [RowCmd.tokens, List.getElem?_append_right (by simp; omega)]
  congr 1
  simp
  omega

/-- The parser goes through the tokens of a command up to its clause. -/
theorem cmd_eq {cfg : Config} {fuel : Nat} {tokens : List BcNode} {leftover : Option Tran} {cmd : RowCmd}
    {db : Db} {session : Session} (hfuel : cmd.tokens.length ≤ fuel)
    (htokens : ∀ j, j < cmd.tokens.length → tokens[j]? = cmd.tokens[j]?) :
    (Y2.init db session).cmd cfg fuel tokens leftover = do
      let (db, session, status, row) ← Y2.perform (cmd.opened cfg fuel db session)
      let s ←
        if status = .ok then do
          let pieces ← Y2.perform (cmd.openBody cfg db row)
          pure (cmd.atClause db session pieces row)
        else pure (cmd.atClause db session [.status status] none)
      let s ← s.mbWhere cfg fuel tokens (cmd.act cfg) cmd.moves
      return s.send cmd.closing := by
  cases cmd with
  | delete schema table =>
      have h0 : tokens[0]? = some .delete := htokens 0 (by simp [RowCmd.tokens])
      have h1 : tokens[1]? = some (.string schema) := htokens 1 (by simp [RowCmd.tokens])
      have h2 : tokens[2]? = some (.string table) := htokens 2 (by simp [RowCmd.tokens])
      unfold Y2.cmd
      rw [Y2.peek_token (show (Y2.init db session).look = ⟨⟨0, none, []⟩, none⟩ from rfl) h0 rfl]
      dsimp only [bind, Except.bind, Y2.shift, Look.shift]
      unfold Y2.deleteRule
      rw [Y2.string_token rfl h1]
      dsimp only [bind, Except.bind]
      rw [Y2.string_token rfl h2]
      dsimp only [bind, Except.bind, opened, Y2.init]
      cases dmlDelete cfg fuel db session schema table with
      | error fault => rfl
      | ok r =>
          obtain ⟨db₁, session₁, status, row⟩ := r
          dsimp only [Y2.perform, Except.mapError]
          by_cases hstatus : status = .ok
          · rw [if_pos hstatus, if_pos hstatus]
            rfl
          · rw [if_neg hstatus, if_neg hstatus]
            rfl
  | select schema table name names =>
      have hlength : (RowCmd.select schema table name names).tokens.length = (name :: names).length + 5 := by
        simp only [RowCmd.tokens, List.length_append, List.length_map, List.length_cons,
          List.length_nil]
        omega
      rw [hlength] at hfuel htokens
      have h0 : tokens[0]? = some .select := htokens 0 (by omega)
      have h1 : tokens[0 + 1]? = some .arrayBegin := htokens 1 (by omega)
      have hnames (j : Nat) (hj : j < (name :: names).length) :
          tokens[0 + 1 + 1 + j]? = ((name :: names).map BcNode.string)[j]? := by
        rw [htokens _ (by omega), select_names hj]
      have hlast (j : Nat) (hj : j < 3) :
          tokens[0 + 1 + 1 + (name :: names).length + j]?
            = [BcNode.arrayEnd, .string schema, .string table][j]? := by
        rw [htokens _ (by omega), select_last]
      unfold Y2.cmd
      rw [Y2.peek_token (show (Y2.init db session).look = ⟨⟨0, none, []⟩, none⟩ from rfl) h0 rfl]
      dsimp only [bind, Except.bind, Y2.shift, Look.shift]
      unfold Y2.selectRule
      rw [Y2.stringArray_tokens (Nat.lt_of_lt_of_le (by omega) hfuel) rfl h1 hnames (hlast 0 (by decide))]
      dsimp only [bind, Except.bind]
      rw [Y2.string_token rfl (hlast 1 (by decide))]
      dsimp only [bind, Except.bind]
      rw [Y2.string_token rfl (hlast 2 (by decide))]
      dsimp only [bind, Except.bind, opened, Y2.init]
      cases dmlSelect cfg fuel db session schema table (name :: names) with
      | error fault => rfl
      | ok r =>
          obtain ⟨db₁, session₁, status, row⟩ := r
          dsimp only [Y2.perform, Except.mapError, openBody]
          have hopened (sent : List Piece) (row : Option Titor) :
              (RowCmd.select schema table name names).atClause db₁ session₁ sent row
                = { db := db₁, session := session₁, sent, evaluated := [], titor := row
                    look := ⟨⟨0 + 1 + 1 + (name :: names).length + 1 + 1 + 1, row,
                      [] ++ [.select] ++ [.arrayBegin] ++ (name :: names).map .string ++ [.arrayEnd]
                        ++ [.string schema] ++ [.string table]⟩, none⟩ } := by
            have hdelivered : (RowCmd.select schema table name names).tokens
                = [] ++ [.select] ++ [.arrayBegin] ++ (name :: names).map .string ++ [.arrayEnd]
                  ++ [.string schema] ++ [.string table] := by simp [RowCmd.tokens]
            rw [atClause, ← hdelivered, hlength,
              show 0 + 1 + 1 + (name :: names).length + 1 + 1 + 1 = (name :: names).length + 5 by omega]
          simp only [hopened]
          by_cases hstatus : status = .ok
          · rw [if_pos hstatus, if_pos hstatus]
            cases Y2.openBody cfg db₁ row with
            | error fault => rfl
            | ok pieces => rfl
          · rw [if_neg hstatus, if_neg hstatus]
            rfl

/-- `find_relation` without creating data. -/
theorem findRelation_spec {cfg : Config} {db db₁ : Db} {session : Session} {schema table : List UInt8}
    {gp : GidPair} (h : findRelation cfg db session schema table false false = .ok (db₁, gp)) :
    db₁ = db ∧ (gp.header ≠ .undef →
      ∃ row i, db.relationRow session schema table = some (row, i) ∧ gp.header = row.header) := by
  unfold findRelation at h
  split at h
  · cases h
    exact ⟨rfl, fun h => absurd rfl h⟩
  next row i hrow =>
    obtain ⟨-, -, h⟩ := bind_eq_ok.mp h
    obtain ⟨created, hcreated, h⟩ := bind_eq_ok.mp h
    cases hcreated
    cases h
    exact ⟨rfl, fun _ => ⟨row, i, hrow, rfl⟩⟩

/-- The transaction of a command that found its table. -/
def openTran (cfg : Config) (db : Db) (session : Session) (gp : GidPair) :
    Except Fault (TranState × Session × ScrcStatus) :=
  if (db.pages gp.data).content = .mvcc then putTranIfNone cfg db.trans session
  else .ok (db.trans, session, .ok)

theorem openRelation_eq {cfg : Config} {fuel : Nat} {db : Db} {session : Session} {gp : GidPair} :
    openRelation cfg fuel db session gp
      = if gp.data = .undef then .ok (db, session, .ok, none)
        else openTran cfg db session gp >>= fun r =>
          if r.2.2 ≠ .ok then .ok ({ db with trans := r.1 }, r.2.1, r.2.2, none)
          else titorInit cfg fuel { db with trans := r.1 } r.2.1.tran gp >>= fun titor =>
            .ok ({ db with trans := r.1 }, r.2.1, .ok, some titor) := by
  unfold openRelation openTran
  by_cases hcontent : (db.pages gp.data).content = .mvcc
  · rw [if_pos hcontent, if_pos hcontent]
    rfl
  · rw [if_neg hcontent, if_neg hcontent]
    rfl

theorem openRelation_spec {cfg : Config} {fuel : Nat} {db db₁ : Db} {session session₁ : Session}
    {gp : GidPair} {status : ScrcStatus} {row : Option Titor}
    (h : openRelation cfg fuel db session gp = .ok (db₁, session₁, status, row)) :
    db₁.pages = db.pages ∧ ∀ t, row = some t → t.m.gp.header = gp.header := by
  rw [openRelation_eq] at h
  split at h
  · cases h
    exact ⟨rfl, fun t ht => nomatch ht⟩
  · obtain ⟨r, -, h⟩ := bind_eq_ok.mp h
    split at h
    · cases h
      exact ⟨rfl, fun t ht => nomatch ht⟩
    · obtain ⟨titor, htitor, h⟩ := bind_eq_ok.mp h
      cases h
      refine ⟨rfl, fun t ht => ?_⟩
      cases ht
      exact titorInit_spec htitor

theorem openRelation_mono {cfg : Config} {fuel fuel' : Nat} {db : Db} {session : Session}
    {gp : GidPair} {r : Db × Session × ScrcStatus × Option Titor} (hle : fuel ≤ fuel')
    (h : openRelation cfg fuel db session gp = .ok r) : openRelation cfg fuel' db session gp = .ok r := by
  rw [openRelation_eq] at h ⊢
  split at h
  · rw [if_pos ‹_›]
    exact h
  · rw [if_neg ‹_›]
    refine bind_mono h fun opened h => ?_
    split at h
    · rw [if_pos ‹_›]
      exact h
    · rw [if_neg ‹_›]
      obtain ⟨titor, htitor, h⟩ := bind_eq_ok.mp h
      exact bind_eq_ok.mpr ⟨titor, titorInit_mono hle htitor, h⟩

theorem opened_mono {cfg : Config} {fuel fuel' : Nat} {cmd : RowCmd} {db : Db} {session : Session}
    {r : Db × Session × ScrcStatus × Option Titor} (hle : fuel ≤ fuel')
    (h : cmd.opened cfg fuel db session = .ok r) : cmd.opened cfg fuel' db session = .ok r := by
  cases cmd with
  | delete schema table =>
      refine bind_mono h fun found h => ?_
      dsimp only at h ⊢
      split at h
      · rw [if_pos ‹_›]
        exact h
      · rw [if_neg ‹_›]
        exact openRelation_mono hle h
  | select schema table name names =>
      refine bind_mono h fun found h => ?_
      dsimp only at h ⊢
      split at h
      · rw [if_pos ‹_›]
        exact h
      · rw [if_neg ‹_›]
        split at h
        · exact h
        · exact openRelation_mono hle h

theorem header_of_found {cfg : Config} {fuel : Nat} {db db' db₁ : Db} {session session₁ : Session}
    {schema table : List UInt8} {gp : GidPair} {row : Titor}
    (hfound : findRelation cfg db session schema table false false = .ok (db', gp))
    (hheader : gp.header ≠ .undef)
    (h : openRelation cfg fuel db' session gp = .ok (db₁, session₁, .ok, some row)) :
    ∃ r i, db.relationRow session schema table = some (r, i)
      ∧ db₁.pages row.m.gp.header = db.pages r.header := by
  obtain ⟨rfl, hrow⟩ := findRelation_spec hfound
  obtain ⟨r, i, hrelation, hgp⟩ := hrow hheader
  obtain ⟨hpages, htitor⟩ := openRelation_spec h
  exact ⟨r, i, hrelation, by rw [hpages, htitor row rfl, hgp]⟩

/-- The iterator of a command has the header page of its table. -/
theorem opened_header {cfg : Config} {fuel : Nat} {cmd : RowCmd} {db db₁ : Db}
    {session session₁ : Session} {row : Titor}
    (h : cmd.opened cfg fuel db session = .ok (db₁, session₁, .ok, some row)) :
    db₁.pages row.m.gp.header = cmd.header db session := by
  unfold header
  cases cmd with
  | delete schema table =>
      obtain ⟨⟨db', gp⟩, hfound, h⟩ := bind_eq_ok.mp h
      dsimp only at h
      split at h
      · cases h
      next hheader =>
        obtain ⟨r, i, hrelation, hpage⟩ := header_of_found hfound hheader h
        dsimp only
        rw [hrelation, hpage]
  | select schema table name names =>
      obtain ⟨⟨db', gp⟩, hfound, h⟩ := bind_eq_ok.mp h
      dsimp only at h
      split at h
      · cases h
      next hheader =>
        split at h
        · cases h
        · obtain ⟨r, i, hrelation, hpage⟩ := header_of_found hfound hheader h
          dsimp only
          rw [hrelation, hpage]

/-- The columns that are sent, from one on. -/
def sentColumns (header : Grid) (i n : Nat) : List Piece :=
  (((List.range' i n).map header.columns).filter fun c => c.name.head? ≠ some 42).map .column

theorem columnPieces_eq {cfg : Config} {header : Grid} {n : Nat}
    (hfits : cfg.build = .debug → header.occupied < header.rown) {i k : Nat}
    (hi : i + n = header.occupied) (hk : n < k) :
    Y2.columnPieces cfg header k i = .ok (sentColumns header i n) := by
  induction n generalizing i k with
  | zero =>
      obtain ⟨k, rfl⟩ := Nat.exists_eq_succ_of_ne_zero (Nat.ne_zero_of_lt hk)
      have hassert : cfg.build.assert (i < header.rown) = .ok () :=
        Build.assert_eq_ok.mpr fun h => Nat.lt_of_le_of_lt (Nat.le_of_eq hi) (hfits h)
      rw [Nat.succ_eq_add_one, Y2.columnPieces]
      unfold hgridGetColumn
      rw [hassert]
      dsimp only [bind, Except.bind]
      rw [if_neg (by omega)]
      rfl
  | succ n ih =>
      obtain ⟨k, rfl⟩ := Nat.exists_eq_succ_of_ne_zero (Nat.ne_zero_of_lt hk)
      have hassert : cfg.build.assert (i < header.rown) = .ok () :=
        Build.assert_eq_ok.mpr fun h => Nat.lt_trans (by omega) (hfits h)
      have hrest := ih (i := i + 1) (by omega) (Nat.lt_of_succ_lt_succ hk)
      rw [Nat.succ_eq_add_one, Y2.columnPieces]
      unfold hgridGetColumn
      rw [hassert]
      dsimp only [bind, Except.bind]
      rw [if_pos (by omega)]
      dsimp only [pure, Except.pure]
      rw [hrest]
      unfold sentColumns
      rw [List.range'_succ, List.map_cons, List.filter_cons]
      by_cases hname : (header.columns i).name.head? = some 42
      · simp [hname]
      · simp [hname]

theorem columnPieces_full {cfg : Config} {header : Grid} {n : Nat} (hdebug : cfg.build = .debug)
    (hfull : ¬ header.occupied < header.rown) {i k : Nat} (hi : i + n = header.occupied) (hk : n < k) :
    Y2.columnPieces cfg header k i = .error .assertion := by
  induction n generalizing i k with
  | zero =>
      obtain ⟨k, rfl⟩ := Nat.exists_eq_succ_of_ne_zero (Nat.ne_zero_of_lt hk)
      rw [Nat.succ_eq_add_one, Y2.columnPieces]
      unfold hgridGetColumn Build.assert
      rw [hdebug]
      dsimp only
      rw [if_neg (by omega)]
      rfl
  | succ n ih =>
      obtain ⟨k, rfl⟩ := Nat.exists_eq_succ_of_ne_zero (Nat.ne_zero_of_lt hk)
      rw [Nat.succ_eq_add_one, Y2.columnPieces]
      unfold hgridGetColumn Build.assert
      rw [hdebug]
      dsimp only
      by_cases hrow : i < header.rown
      · rw [if_pos hrow]
        dsimp only [bind, Except.bind]
        rw [if_pos (by omega)]
        dsimp only [pure, Except.pure]
        rw [ih (by omega) (Nat.lt_of_succ_lt_succ hk)]
      · rw [if_neg hrow]
        rfl

theorem openBody_eq {cfg : Config} {cmd : RowCmd} {db : Db} {row : Titor}
    (hfits : cmd.Fits cfg (db.pages row.m.gp.header)) :
    cmd.openBody cfg db (some row) = .ok (cmd.opening (db.pages row.m.gp.header)) := by
  cases cmd with
  | delete schema table => rfl
  | select schema table name names =>
      unfold openBody Y2.openBody
      dsimp only
      rw [columnPieces_eq hfits (Nat.zero_add _) (Nat.lt_succ_self _)]
      unfold sentColumns opening
      rw [List.range_eq_range']
      rfl

theorem openBody_full {cfg : Config} {cmd : RowCmd} {db : Db} {row : Titor}
    (hfull : ¬ cmd.Fits cfg (db.pages row.m.gp.header)) :
    cmd.openBody cfg db (some row) = .error .assertion := by
  cases cmd with
  | delete schema table => exact absurd trivial hfull
  | select schema table name names =>
      obtain ⟨hdebug, hfull⟩ := Classical.not_imp.mp hfull
      unfold openBody Y2.openBody
      dsimp only
      rw [columnPieces_full hdebug hfull (Nat.zero_add _) (Nat.lt_succ_self _)]
      rfl

/-! ### The clause -/

section Clause

variable {cfg : Config} {fuel : Nat} {cmd : RowCmd} {bc : Bc BcNode} {db : Db} {session : Session}
  {sent : List Piece} {t : Tree .or}

theorem keeps_act (cfg : Config) (cmd : RowCmd) (db₀ : Db) : Keeps db₀ (cmd.act cfg) :=
  fun _ _ _ _ hcontent hchanged hact => act_changedAt hcontent hchanged hact

/-- The parser reads `WHERE`. -/
theorem mbWhere_wher {row : Option Titor} {act : Titor → Work → Except Fault Work} {moves : Bool} :
    (cmd.atClause db session sent row).mbWhere cfg fuel (prepared cmd.tokens t.tokens) act moves
      = Y2.lines cfg fuel (prepared cmd.tokens t.tokens) act fuel
          { db, session, sent, evaluated := [], titor := row
            look := ⟨⟨cmd.tokens.length + 1, row, cmd.tokens ++ [.wher]⟩, none⟩ } := by
  unfold Y2.mbWhere
  rw [Y2.peek_token (show (cmd.atClause db session sent row).look = ⟨⟨_, row, _⟩, none⟩ from rfl)
    (show (prepared cmd.tokens t.tokens)[cmd.tokens.length]? = some .wher from loopTokens_wher) rfl]
  dsimp only [bind, Except.bind]
  exact if_pos rfl

/-- With a row the clause does for all rows what is to be done. -/
theorem mbWhere_rows {row : Titor} {rows : List Titor} (hfuel : t.cost + 1 ≤ fuel)
    (hrows : rows.length < fuel) (hloop : ∀ x ∈ t.tokens, isLoop x = false)
    (hscan : Scan cfg fuel db (some row) (row :: rows)) :
    Ends (cmd.tokens ++ [.wher] ++ (List.replicate (rows.length + 1) t.tokens).flatten)
      ((cmd.atClause db session sent (some row)).mbWhere cfg fuel (prepared cmd.tokens t.tokens)
        (cmd.act cfg) cmd.moves)
      ((row :: rows).foldlM
        (forRow (fun row => t.eval cfg.build (titorColumns cfg db (some row))) (cmd.act cfg))
        ⟨db, session, sent, []⟩) := by
  obtain ⟨b, bs, hbody, hb⟩ := tokens_start t
  rw [mbWhere_wher]
  exact lines_run (keeps_act cfg cmd db) hfuel hbody hb hloop hrows hscan (ChangedAt.refl db)
    ⟨fun _ _ h => (nomatch h), fun _ _ h => (nomatch h)⟩ rfl (Or.inl rfl)

theorem mbWhere_none {row : Option Titor} (hfuel : 7 ≤ fuel) (hrow : titorValid db row = false) :
    (cmd.atClause db session sent row).mbWhere cfg fuel (prepared cmd.tokens t.tokens)
      (cmd.act cfg) cmd.moves = .error (.abort ⟨db, session, sent, []⟩) := by
  rw [mbWhere_wher]
  obtain ⟨fuel, rfl⟩ := Nat.exists_eq_succ_of_ne_zero (show fuel ≠ 0 by omega)
  rw [Nat.succ_eq_add_one, Y2.lines]
  unfold Y2.line
  dsimp only
  rw [parseOr_end (l := ⟨cmd.tokens.length + t.tokens.length + 3, row, cmd.tokens ++ [.wher]⟩) hfuel
    (Shows.shifted _ ⟨_, y2lex_skip hrow, rfl⟩)]
  rfl

/-- The parser wants the end behind a command. -/
def atEnd (cfg : Config) (fuel : Nat) (tokens : List BcNode) (s : Y2) : Except Halt Y2 := do
  let (s, ahead) ← s.peek cfg fuel tokens
  if ahead = none then return s else s.syntaxError

theorem run_of_takes {leftover : Option Tran} {e : Hquery.Tree .or} (htakes : bc.Takes cfg.build (cmd.bytecode e)) :
    cmd.run cfg fuel leftover bc e db session = parsed cfg fuel leftover (cmd.bytecode e) db session := by
  obtain ⟨bc', hputs, hlist⟩ := htakes
  unfold run
  rw [hputs]
  dsimp only
  rw [hlist]

/-- The parser on the bytecode of a command that found its table. -/
theorem run_eq {leftover : Option Tran} {e : Hquery.Tree .or} {db₁ : Db} {session₁ : Session}
    {row : Option Titor} (htakes : bc.Takes cfg.build (cmd.bytecode e)) (hfuel : cmd.tokens.length ≤ fuel)
    (hopen : cmd.opened cfg fuel db session = .ok (db₁, session₁, .ok, row)) :
    cmd.run cfg fuel leftover bc e db session = outcome (do
      let pieces ← Y2.perform (cmd.openBody cfg db₁ row)
      let s ← (cmd.atClause db₁ session₁ pieces row).mbWhere cfg fuel
        (prepared cmd.tokens e.translate.tokens) (cmd.act cfg) cmd.moves
      atEnd cfg fuel (prepared cmd.tokens e.translate.tokens) (s.send cmd.closing)) := by
  have hbytecode : cmd.bytecode e = loopTokens cmd.tokens e.emitted 0 0 := by
    simp [bytecode, loopTokens]
  rw [run_of_takes htakes]
  unfold parsed
  rw [hbytecode, bcPrepare_loop (tokens_isLoop cmd) (emitted_isLoop e), e.translate_tokens]
  dsimp only
  have htokens (j : Nat) (hj : j < cmd.tokens.length) :
      (prepared cmd.tokens e.emitted)[j]? = cmd.tokens[j]? := loopTokens_pre hj
  unfold Y2.parse
  rw [show loopTokens cmd.tokens e.emitted (cmd.tokens.length + e.emitted.length + 3) (cmd.tokens.length + 1)
    = prepared cmd.tokens e.emitted from rfl, cmd_eq hfuel htokens, hopen]
  dsimp only [Y2.perform, Except.mapError, bind, Except.bind]
  rw [if_pos rfl]
  cases cmd.openBody cfg db₁ row with
  | error fault => rfl
  | ok pieces =>
      dsimp only [Y2.perform, Except.mapError, pure, Except.pure]
      cases (cmd.atClause db₁ session₁ pieces row).mbWhere cfg fuel (prepared cmd.tokens e.emitted)
        (cmd.act cfg) cmd.moves with
      | error halt => rfl
      | ok s => rfl

/-- With a visible row the command ends as it is to end, unless a debug build fails on the header page. -/
theorem run_rows {leftover : Option Tran} {e : Hquery.Tree .or} {db₁ : Db} {session₁ : Session}
    {row : Titor} {rows : List Titor} (htakes : bc.Takes cfg.build (cmd.bytecode e)) (hfuel : cmd.tokens.length ≤ fuel)
    (hcost : e.translate.cost + 1 ≤ fuel) (hrows : rows.length < fuel)
    (hopen : cmd.opened cfg fuel db session = .ok (db₁, session₁, .ok, some row))
    (hscan : Scan cfg fuel db₁ (some row) (row :: rows))
    (hfits : cmd.Fits cfg (cmd.header db session)) :
    cmd.run cfg fuel leftover bc e db session
      = cmd.reference cfg e (cmd.header db session) db₁ session₁ (row :: rows) := by
  rw [← opened_header hopen] at hfits ⊢
  rw [run_eq htakes hfuel hopen, openBody_eq hfits]
  dsimp only [Y2.perform, Except.mapError, bind, Except.bind]
  have hloop : ∀ x ∈ e.translate.tokens, isLoop x = false := by
    rw [e.translate_tokens]
    exact emitted_isLoop e
  have hends := @mbWhere_rows cfg fuel cmd db₁ session₁ (cmd.opening (db₁.pages row.m.gp.header))
    e.translate row rows hcost hrows hloop hscan
  unfold reference
  dsimp only
  generalize (row :: rows).foldlM
    (forRow (fun row => e.translate.eval cfg.build (titorColumns cfg db₁ (some row))) (cmd.act cfg))
    ⟨db₁, session₁, cmd.opening (db₁.pages row.m.gp.header), []⟩ = result at hends ⊢
  cases result with
  | error halt =>
      rw [show _ = Except.error halt from hends]
      cases halt with
      | abort w => rfl
      | fault fault => rfl
  | ok w =>
      obtain ⟨s, hs, rfl, hahead, hdelivered⟩ := hends
      rw [hs]
      dsimp only
      have hpeek : (s.send cmd.closing).peek cfg fuel (prepared cmd.tokens e.translate.tokens)
          = .ok (s.send cmd.closing, none) := by
        refine peek_ahead (l := s.look.lexer) ?_
        rw [← hahead]
        rfl
      unfold atEnd
      rw [hpeek]
      dsimp only [bind, Except.bind]
      rw [if_pos rfl, ← e.translate_tokens]
      have hcopies : cmd.tokens ++ .wher :: (List.replicate (row :: rows).length e.translate.tokens).flatten
          = s.look.lexer.delivered := by
        rw [hdelivered, List.append_assoc]
        rfl
      rw [hcopies]
      rfl

theorem run_empty {leftover : Option Tran} {e : Hquery.Tree .or} {db₁ : Db} {session₁ : Session}
    {row : Option Titor} (htakes : bc.Takes cfg.build (cmd.bytecode e)) (hfuel : cmd.tokens.length ≤ fuel)
    (hseven : 7 ≤ fuel)
    (hopen : cmd.opened cfg fuel db session = .ok (db₁, session₁, .ok, row))
    (hscan : Scan cfg fuel db₁ row []) {w : Work} {delivered : List BcNode} :
    cmd.run cfg fuel leftover bc e db session ≠ .accepted w delivered := by
  have hrow : titorValid db₁ row = false := by
    cases hscan with
    | undef => rfl
    | done hvalid => exact hvalid
  rw [run_eq htakes hfuel hopen]
  cases cmd.openBody cfg db₁ row with
  | error fault => exact nofun
  | ok pieces =>
      dsimp only [Y2.perform, Except.mapError, bind, Except.bind]
      rw [mbWhere_none hseven hrow]
      exact nofun

theorem run_full {leftover : Option Tran} {e : Hquery.Tree .or} {db₁ : Db} {session₁ : Session}
    {row : Titor} (htakes : bc.Takes cfg.build (cmd.bytecode e)) (hfuel : cmd.tokens.length ≤ fuel)
    (hopen : cmd.opened cfg fuel db session = .ok (db₁, session₁, .ok, some row))
    (hfull : ¬ cmd.Fits cfg (cmd.header db session)) :
    cmd.run cfg fuel leftover bc e db session = .fault .assertion := by
  rw [← opened_header hopen] at hfull
  rw [run_eq htakes hfuel hopen, openBody_full hfull]
  rfl

theorem reference_nil {e : Hquery.Tree .or} {header : Grid} {session : Session} :
    cmd.reference cfg e header db session []
      = .accepted ⟨db, session, cmd.opening header ++ cmd.closing, []⟩ (cmd.tokens ++ [.wher]) := rfl

/-- Without a visible row a command does not end as it is to end. -/
theorem not_runs_empty {leftover : Option Tran} {e : Hquery.Tree .or} {db₁ : Db} {session₁ : Session}
    {row : Option Titor} (htakes : bc.Takes cfg.build (cmd.bytecode e))
    (hopen : cmd.opened cfg fuel db session = .ok (db₁, session₁, .ok, row))
    (hscan : Scan cfg fuel db₁ row []) : ¬ cmd.Runs cfg leftover bc e db session db₁ session₁ [] := by
  rintro ⟨-, fuel₁, hruns⟩
  have hrun := hruns (fuel₁ + fuel + cmd.tokens.length + 7) (by omega)
  rw [reference_nil] at hrun
  exact run_empty htakes (by omega) (by omega) (opened_mono (by omega) hopen) (hscan.mono (by omega)) hrun

end Clause

end RowCmd

/-- The command does for every visible row what it is to do if and only if there is such a row, nothing that is to be
done ends the process, and a debug build does not fail on the header page. -/
theorem RowCmd.runs_iff {cfg : Config} {fuel : Nat} {leftover : Option Tran} {cmd : RowCmd} {bc : Bc BcNode}
    {e : Hquery.Tree .or} {db db₁ : Db} {session session₁ : Session} {row : Option Titor}
    {rows : List Titor} (htakes : bc.Takes cfg.build (cmd.bytecode e))
    (hopen : cmd.opened cfg fuel db session = .ok (db₁, session₁, .ok, row)) (hscan : Scan cfg fuel db₁ row rows) :
    cmd.Runs cfg leftover bc e db session db₁ session₁ rows ↔
      rows ≠ [] ∧ cmd.Fits cfg (cmd.header db session)
        ∧ cmd.Returns cfg e (cmd.header db session) db₁ session₁ rows := by
  constructor
  · rintro ⟨hreturns, fuel₁, hruns⟩
    have hrows : rows ≠ [] := by
      rintro rfl
      exact RowCmd.not_runs_empty htakes hopen hscan ⟨hreturns, fuel₁, hruns⟩
    refine ⟨hrows, ?_, hreturns⟩
    by_contra hfull
    obtain ⟨r, rows, rfl⟩ := List.exists_cons_of_ne_nil hrows
    obtain _ | _ | hrow := hscan
    have hrun := hruns (fuel₁ + fuel + cmd.tokens.length) (by omega)
    rw [RowCmd.run_full htakes (by omega) (RowCmd.opened_mono (by omega) hopen) hfull] at hrun
    exact hreturns .assertion hrun.symm
  · rintro ⟨hrows, hfits, hreturns⟩
    obtain ⟨r, rows, rfl⟩ := List.exists_cons_of_ne_nil hrows
    refine ⟨hreturns, fuel + cmd.tokens.length + (e.translate.cost + 1) + (rows.length + 1),
      fun fuel' hfuel => ?_⟩
    have hscan' := hscan.mono (show fuel ≤ fuel' by omega)
    obtain _ | _ | hrow := hscan
    exact RowCmd.run_rows htakes (by omega) (by omega) (by omega) (RowCmd.opened_mono (by omega) hopen) hscan'
      hfits

/-- A table `t` in the schema `s` with a column `a`. It has one row, put by the transaction of the session, or no
data at all where their id is 0. -/
def smallDb (data : Int64) : Db where
  pages g :=
    if g = ⟨1⟩ then
      { content := .pure, next := .undef, rowsz := 40, rown := 101, occupied := 3, datasz := 24
        columns := fun n =>
          [⟨tminName, 0, .bigint, 0⟩, ⟨tmaxName, 8, .bigint, 0⟩, ⟨[97], 16, .bigint, 0⟩].getD n
            ⟨[], 0, .unknown, 0⟩
        rows := fun _ => .zero }
    else
      { content := .mvcc, next := .undef, rowsz := 24, rown := 169, occupied := 1, datasz := 0
        columns := fun _ => ⟨[], 0, .unknown, 0⟩
        rows := fun _ => Function.update Row.zero tminIdx ⟨1, []⟩ }
  sequence := ⟨1, 100, 2, 1, 0, 1⟩
  meshSequence := ⟨1, 100, 2, 1, 0, 1⟩
  user := ⟨10, false, []⟩
  schema := ⟨10, false, []⟩
  relation := ⟨10, false, [⟨[99], [115], [116], 1, data, data⟩]⟩
  trans := ⟨⟨10, false, []⟩, fun _ => .aborted⟩

def smallRow : Titor := ⟨⟨⟨⟨1⟩, ⟨2⟩⟩, 0⟩, some ⟨1, false⟩⟩

/-- The expression `a = 1`. -/
def aIsOne : Hquery.Tree .or :=
  .orUnit (.andUnit (.notUnit (.cmp .eq
    (.additiveUnit (.multiplicativeUnit (.value (.id [97]))))
    (.additiveUnit (.multiplicativeUnit (.value (.vinteger 1)))))))

/-- The row of `t` as a transaction sees it. -/
def insertedRow (tran : Tran) : Titor := ⟨⟨⟨⟨1⟩, ⟨2⟩⟩, 0⟩, some tran⟩

end Scroller.Execute

import Scroller.Proof.BytecodeLoop
import Scroller.Proof.Replay
import Scroller.Proof.Scans

/-!
# A clause over the rows of a table

The iterator of the lexer is one row ahead of `cmd->titor` whenever a line is reduced, and both go over the same
rows. So the parser reads one copy of the expression for every visible row and evaluates it for that row, as long
as there is a first row.
-/

namespace Scroller.Execute

/-! ### Expressions -/

theorem tokens_start {n : Nonterminal} (t : Tree n) :
    ∃ b bs, t.tokens = b :: bs ∧ Y2.startsExpr (some b) = true := by
  induction t with
  | orUnit e ih | andUnit e ih | notUnit e ih | cmpUnit e ih | additiveUnit e ih
  | multiplicativeUnit e ih => exact ih
  | or l r ihl ihr | and l r ihl ihr | cmp op l r ihl ihr | like l r ihl ihr | notLike l r ihl ihr
  | additive op l r ihl ihr | multiplicative op l r ihl ihr =>
      obtain ⟨b, bs, htokens, hstart⟩ := ihl
      exact ⟨b, _, by rw [Tree.tokens, htokens, List.cons_append], hstart⟩
  | isIn l v vs ih | notIn l v vs ih =>
      obtain ⟨b, bs, htokens, hstart⟩ := ih
      exact ⟨b, _, by rw [Tree.tokens, htokens, List.cons_append, List.cons_append], hstart⟩
  | between x a c ihx iha ihc | notBetween x a c ihx iha ihc =>
      obtain ⟨b, bs, htokens, hstart⟩ := ihx
      exact ⟨b, _, by rw [Tree.tokens, htokens, List.cons_append, List.cons_append], hstart⟩
  | not e ih => exact ⟨_, _, rfl, rfl⟩
  | value v => exact ⟨_, _, rfl, rfl⟩
  | paren e ih => exact ⟨_, _, rfl, rfl⟩

theorem tokenLevel_start {b : BcNode} (h : Y2.startsExpr (some b) = true) :
    tokenLevel (some b) = 6 := by
  cases b <;> first | rfl | cases h

section Parse

variable {L E : Type} {V : Nonterminal → Type} {W : Type} {lexer : Lexer L E} {actions : Actions E V W}

theorem parseOr_tree {t : Tree .or} {fuel : Nat} {s : Look L} {x : Option BcNode} {l : L}
    (hfuel : t.cost + 1 ≤ fuel) (hx : 6 ≤ tokenLevel x) (hs : Shows lexer s (t.stream ++ [x]) l) :
    parseOr lexer actions fuel s = t.fold actions >>= fun v => .ok (⟨l, some x⟩, v) := by
  have hparses : ParsesTo lexer actions (parseOr lexer actions) (loopOr lexer actions) 5 t :=
    parses lexer actions t
  obtain ⟨k, hk, heq⟩ := hparses fuel 1 s x l hfuel (Nat.le_of_succ_le hx) hs
  obtain ⟨k, rfl⟩ := Nat.exists_eq_succ_of_ne_zero (Nat.ne_zero_of_lt hk)
  exact heq.trans (bind_congr fun v => leftLoop_stop (or_stop hx))

end Parse

namespace Y2

theorem within_bind {α β : Type} (w : Work) (x : Except Stop α) (f : α → Except Stop β) :
    within w (x >>= f) = within w x >>= fun a => within w (f a) := by
  cases x with
  | ok a => rfl
  | error stop => cases stop <;> rfl

end Y2

/-! ### Lines -/

section Lines

variable {cfg : Config} {fuel : Nat} {pre : List BcNode} {t : Tree .or} {b : BcNode} {bs : List BcNode}
  {act : Titor → Work → Except Fault Work} {delivered : List BcNode}

theorem behind_level {db : Db} {next : Titor} (hb : Y2.startsExpr (some b) = true) :
    6 ≤ tokenLevel (behind db pre t.tokens b next delivered).2 := by
  unfold behind
  split
  · exact Nat.le_of_eq (tokenLevel_start hb).symm
  · exact Nat.le_refl _

/-- A line reads a copy and evaluates the expression for the row under `cmd->titor`. -/
theorem line_copy {s : Y2} {row next : Titor} (hfuel : t.cost + 1 ≤ fuel)
    (hbody : t.tokens = b :: bs) (hb : Y2.startsExpr (some b) = true)
    (hloop : ∀ x ∈ t.tokens, isLoop x = false) (htitor : s.titor = some row)
    (hrow : titorIsValid s.db row = true) (hnext : titorNext cfg fuel s.db row = .ok next)
    (hlook : AtCopy pre b s.look row delivered) :
    s.line cfg fuel (prepared pre t.tokens) act
      = Y2.within s.toWork (t.eval cfg.build (titorColumns cfg s.db (some row))) >>= fun v =>
          Y2.perform (Y2.lineAction cfg fuel act
            { s with
              look := ⟨(behind s.db pre t.tokens b next (delivered ++ t.tokens)).1,
                some (behind s.db pre t.tokens b next (delivered ++ t.tokens)).2⟩
              evaluated := s.evaluated ++ [some row] } v) := by
  have hshows : Shows (y2lexer cfg fuel s.db (prepared pre t.tokens)) s.look
      (t.tokens.map some ++ [(behind s.db pre t.tokens b next (delivered ++ t.tokens)).2])
      (behind s.db pre t.tokens b next (delivered ++ t.tokens)).1 :=
    shows_copy hbody hloop hrow hnext hlook
  unfold Y2.line
  rw [htitor, parseOr_tree hfuel (behind_level hb) hshows, fold_evalActions, Y2.within_bind]
  cases Y2.within s.toWork (t.eval cfg.build (titorColumns cfg s.db (some row))) with
  | error halt => rfl
  | ok v => rfl

/-- The action of a line moves `cmd->titor` to the row that the lexer has found. -/
theorem lineAction_row {s : Y2} {row : Titor} (htitor : s.titor = some row)
    (hrow : titorIsValid s.db row = true) (v : Int64) :
    Y2.lineAction cfg fuel act s v
      = (if v ≠ 0 then act row s.toWork else pure s.toWork) >>= fun w =>
          titorNext cfg fuel w.db row >>= fun next =>
            pure { s with toWork := w, titor := some next } := by
  unfold Y2.lineAction
  rw [htitor]
  dsimp only
  rw [if_pos hrow]
  by_cases hv : v ≠ 0
  · rw [if_pos hv, if_pos hv]
  · rw [if_neg hv, if_neg hv]

variable {db₀ : Db}

/-- Changed places that a scan from a row on will not come to. -/
structure Passed (cfg : Config) (db₀ : Db) (row : Titor) (rows : List Titor)
    (places : List (Gid × Nat)) : Prop where
  visible : ∀ m : Mitor, m.gp.header = row.m.gp.header → place m ∈ places →
    rowIsVisible cfg db₀ row.tran m = .ok true
  ahead : ∀ r ∈ rows, place r.m ∉ places

theorem Passed.next {row next : Titor} {rows : List Titor} {places : List (Gid × Nat)}
    (h : Passed cfg db₀ row (row :: rows) places) (hscan : Scan cfg fuel db₀ (some row) (row :: rows))
    (hnext : titorNext cfg fuel db₀ row = .ok next) :
    Passed cfg db₀ next rows (place row.m :: places) := by
  obtain ⟨htran, hheader⟩ := titorNext_spec hnext
  constructor
  · intro m hm hmem
    rw [hheader] at hm
    rw [htran]
    obtain heq | hmem := List.mem_cons.mp hmem
    · cases hscan with
      | row hvalid hcontent hvisible hnext' hrows =>
          rw [eq_of_place hm heq]
          exact hvisible
    · exact h.visible m hm hmem
  · intro r hr hmem
    obtain heq | hmem := List.mem_cons.mp hmem
    · obtain ⟨htran', hheader'⟩ := hscan.same r (List.mem_cons_of_mem row hr)
      have hsame : r = row := by
        obtain ⟨m, tran⟩ := r
        obtain ⟨m', tran'⟩ := row
        cases eq_of_place hheader' heq
        cases htran'
        rfl
      rw [hsame] at hr
      exact (List.nodup_cons.mp hscan.nodup).1 hr
    · exact h.ahead r (List.mem_cons_of_mem row hr) hmem

theorem titorIsValid_of_tran {db : Db} {row : Titor} (h : row.tran ≠ none) :
    titorIsValid db row = mitorIsValid db row.m := by
  unfold titorIsValid
  simp [h]

/-- A valid iterator of a table with versions has a transaction. -/
theorem tran_of_titorIsValid {db : Db} {row : Titor} (hvalid : titorIsValid db row = true)
    (hcontent : (db.pages row.m.gp.data).content = .mvcc) : row.tran ≠ none := by
  unfold titorIsValid at hvalid
  rw [hcontent] at hvalid
  simp only [reduceCtorEq, ne_eq, false_or, decide_eq_true_eq] at hvalid
  exact hvalid.2

theorem Passed.of_valid {next : Titor} {rows : List Titor} {places : List (Gid × Nat)}
    (h : Passed cfg db₀ next rows places) (hscan : Scan cfg fuel db₀ (some next) rows)
    (htran : next.tran ≠ none) (hvalid : mitorIsValid db₀ next.m = true) : place next.m ∉ places := by
  cases hscan with
  | done hdone =>
      rw [titorIsValid_of_tran htran, hvalid] at hdone
      cases hdone
  | row => exact h.ahead next List.mem_cons_self

/-- The action keeps a changed row a row that the scan has passed. -/
def Keeps (db₀ : Db) (act : Titor → Work → Except Fault Work) : Prop :=
  ∀ (row : Titor) (w w' : Work) (places : List (Gid × Nat)),
    (db₀.pages row.m.gp.data).content = .mvcc → ChangedAt db₀ w.db places → act row w = .ok w' →
      ChangedAt db₀ w'.db (place row.m :: places)

/-- The action of a line does for its row what is to be done and moves `cmd->titor`. -/
theorem lineAction_step (hkeeps : Keeps db₀ act) {row next : Titor} {places : List (Gid × Nat)} {s : Y2}
    {v : Int64} (hcontent : (db₀.pages row.m.gp.data).content = .mvcc)
    (hchanged : ChangedAt db₀ s.db places) (htitor : s.titor = some row)
    (hrow : titorIsValid s.db row = true)
    (hnext : ∀ db, ChangedAt db₀ db (place row.m :: places) → titorNext cfg fuel db row = .ok next) :
    match (if v ≠ 0 then Y2.perform (act row s.toWork) else pure s.toWork : Except Halt Work) with
    | .error halt => Y2.perform (Y2.lineAction cfg fuel act s v) = .error halt
    | .ok w => ∃ s', Y2.perform (Y2.lineAction cfg fuel act s v) = .ok s' ∧ s'.toWork = w
        ∧ s'.titor = some next ∧ ChangedAt db₀ w.db (place row.m :: places) ∧ s'.look = s.look := by
  rw [lineAction_row htitor hrow]
  by_cases hv : v ≠ 0
  · rw [if_pos hv, if_pos hv]
    cases hact : act row s.toWork with
    | error fault => rfl
    | ok w =>
        have hw := hkeeps row s.toWork w places hcontent hchanged hact
        refine ⟨{ s with toWork := w, titor := some next }, ?_, rfl, rfl, hw, rfl⟩
        dsimp only [bind, Except.bind]
        rw [hnext w.db hw]
        rfl
  · rw [if_neg hv, if_neg hv]
    have hw := hchanged.mono (List.subset_cons_self (place row.m) places)
    refine ⟨{ s with titor := some next }, ?_, rfl, rfl, hw, rfl⟩
    dsimp only [pure, Except.pure, bind, Except.bind]
    rw [hnext s.db hw]
    rfl

/-- A line does for its row what is to be done, and both iterators are at the next row then. -/
theorem line_step (hkeeps : Keeps db₀ act) (hfuel : t.cost + 1 ≤ fuel) (hbody : t.tokens = b :: bs)
    (hb : Y2.startsExpr (some b) = true) (hloop : ∀ x ∈ t.tokens, isLoop x = false)
    {rows : List Titor} {row : Titor} {places : List (Gid × Nat)} {s : Y2}
    (hscan : Scan cfg fuel db₀ (some row) (row :: rows)) (hchanged : ChangedAt db₀ s.db places)
    (hpassed : Passed cfg db₀ row (row :: rows) places) (htitor : s.titor = some row)
    (hlook : AtCopy pre b s.look row delivered) :
    ∃ next, Scan cfg fuel db₀ (some next) rows ∧ Passed cfg db₀ next rows (place row.m :: places) ∧
      match RowCmd.forRow (fun row => t.eval cfg.build (titorColumns cfg db₀ (some row))) act s.toWork row with
      | .error halt => s.line cfg fuel (prepared pre t.tokens) act = .error halt
      | .ok w => ∃ s', s.line cfg fuel (prepared pre t.tokens) act = .ok s' ∧ s'.toWork = w
          ∧ s'.titor = some next ∧ ChangedAt db₀ w.db (place row.m :: places)
          ∧ s'.look = ⟨(behind db₀ pre t.tokens b next (delivered ++ t.tokens)).1,
              some (behind db₀ pre t.tokens b next (delivered ++ t.tokens)).2⟩ := by
  obtain _ | _ | ⟨hvalid, hcontent, hvisible, hnext, hrows⟩ := hscan
  rename_i next
  have hscan := Scan.row hvalid hcontent hvisible hnext hrows
  have hpassed' := hpassed.next hscan hnext
  obtain ⟨htran, hheader⟩ := titorNext_spec hnext
  have htran' : next.tran ≠ none := by
    rw [htran]
    exact tran_of_titorIsValid hvalid hcontent
  have hafter (db : Db) (h : ChangedAt db₀ db (place row.m :: places)) :
      titorNext cfg fuel db row = .ok next := by
    refine h.titorNext hcontent (fun m hm hmem => ?_) (hpassed'.of_valid hrows htran') hnext
    rw [← htran]
    exact hpassed'.visible m (hm.trans hheader.symm) hmem
  have hbefore : titorNext cfg fuel s.db row = .ok next :=
    hafter s.db (hchanged.mono (List.subset_cons_self _ _))
  have hbehind : behind s.db pre t.tokens b next (delivered ++ t.tokens)
      = behind db₀ pre t.tokens b next (delivered ++ t.tokens) := by
    unfold behind
    rw [hchanged.titorIsValid]
  have hrow : titorIsValid s.db row = true := by rwa [hchanged.titorIsValid]
  refine ⟨next, hrows, hpassed', ?_⟩
  rw [line_copy hfuel hbody hb hloop htitor hrow hbefore hlook, hbehind,
    hchanged.titorColumns (hpassed.ahead row List.mem_cons_self)]
  unfold RowCmd.forRow
  cases Y2.within s.toWork (t.eval cfg.build (titorColumns cfg db₀ (some row))) with
  | error halt => rfl
  | ok v =>
      let reduced : Y2 :=
        { s with
          look := ⟨(behind db₀ pre t.tokens b next (delivered ++ t.tokens)).1,
            some (behind db₀ pre t.tokens b next (delivered ++ t.tokens)).2⟩
          evaluated := s.evaluated ++ [some row] }
      have hreduced : reduced.titor = some row := htitor
      exact lineAction_step (s := reduced) (v := v) hkeeps hcontent hchanged hreduced hrow hafter

theorem peek_ahead {tokens : List BcNode} {s : Y2} {l : BcItor} {x : Option BcNode}
    (h : s.look = ⟨l, some x⟩) : s.peek cfg fuel tokens = .ok (s, x) := by
  obtain ⟨w, titor, look⟩ := s
  cases h
  rfl

/-- How the lines end for what the rows make of the work: with the end ahead, or with the same halt. -/
def Ends (delivered : List BcNode) (r : Except Halt Y2) : Except Halt Work → Prop
  | .ok w => ∃ s, r = .ok s ∧ s.toWork = w ∧ s.look.yychar = some none
      ∧ s.look.lexer.delivered = delivered
  | .error halt => r = .error halt

/-- The lines of a clause do for the rows of a scan what is to be done for them, one copy for each. -/
theorem lines_run (hkeeps : Keeps db₀ act) (hfuel : t.cost + 1 ≤ fuel) (hbody : t.tokens = b :: bs)
    (hb : Y2.startsExpr (some b) = true) (hloop : ∀ x ∈ t.tokens, isLoop x = false)
    {rows : List Titor} {row : Titor} {places : List (Gid × Nat)} {s : Y2} {k : Nat}
    (hk : rows.length < k) (hscan : Scan cfg fuel db₀ (some row) (row :: rows))
    (hchanged : ChangedAt db₀ s.db places) (hpassed : Passed cfg db₀ row (row :: rows) places)
    (htitor : s.titor = some row) (hlook : AtCopy pre b s.look row delivered) :
    Ends (delivered ++ (List.replicate (rows.length + 1) t.tokens).flatten)
      (s.lines cfg fuel (prepared pre t.tokens) act k)
      ((row :: rows).foldlM
        (RowCmd.forRow (fun row => t.eval cfg.build (titorColumns cfg db₀ (some row))) act) s.toWork) := by
  induction rows generalizing row places s delivered k with
  | nil =>
      obtain ⟨k, rfl⟩ := Nat.exists_eq_succ_of_ne_zero (Nat.ne_zero_of_lt hk)
      obtain ⟨next, hrows, hpassed', hline⟩ :=
        line_step hkeeps hfuel hbody hb hloop hscan hchanged hpassed htitor hlook
      rw [List.foldlM_cons]
      split at hline
      next halt hforRow =>
        rw [hforRow, Nat.succ_eq_add_one, Y2.lines, hline]
        rfl
      next w hforRow =>
        obtain ⟨s', hs', rfl, htitor', hchanged', hlook'⟩ := hline
        obtain _ | hdone := hrows
        unfold behind at hlook'
        rw [if_neg (by rw [hdone]; exact Bool.false_ne_true)] at hlook'
        rw [hforRow, Nat.succ_eq_add_one, Y2.lines, hs']
        refine ⟨s', ?_, rfl, ?_, ?_⟩
        · dsimp only [bind, Except.bind]
          rw [peek_ahead hlook']
          rfl
        · rw [hlook']
        · rw [hlook']
          simp
  | cons r rows ih =>
      obtain ⟨k, rfl⟩ := Nat.exists_eq_succ_of_ne_zero (Nat.ne_zero_of_lt hk)
      obtain ⟨next, hrows, hpassed', hline⟩ :=
        line_step hkeeps hfuel hbody hb hloop hscan hchanged hpassed htitor hlook
      rw [List.foldlM_cons]
      split at hline
      next halt hforRow =>
        rw [hforRow, Nat.succ_eq_add_one, Y2.lines, hline]
        rfl
      next w hforRow =>
        obtain ⟨s', hs', rfl, htitor', hchanged', hlook'⟩ := hline
        obtain _ | _ | ⟨hvalid, hcontent, hvisible, hnext, hrows⟩ := hrows
        unfold behind at hlook'
        rw [if_pos hvalid] at hlook'
        have hrest := ih (Nat.lt_of_succ_lt_succ hk) (.row hvalid hcontent hvisible hnext hrows)
          hchanged' hpassed' htitor' (Or.inr hlook')
        rw [hforRow, Nat.succ_eq_add_one, Y2.lines, hs']
        dsimp only [bind, Except.bind]
        rw [peek_ahead hlook']
        dsimp only
        rw [if_pos hb]
        have hcopies : delivered ++ (List.replicate (rows.length + 1 + 1) t.tokens).flatten
            = delivered ++ t.tokens ++ (List.replicate (rows.length + 1) t.tokens).flatten := by
          rw [List.replicate_succ, List.flatten_cons, List.append_assoc]
        rw [List.length_cons, hcopies]
        exact hrest

end Lines

end Scroller.Execute

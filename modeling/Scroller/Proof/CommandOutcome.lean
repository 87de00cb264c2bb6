import Scroller.ExecuteCmd
import Scroller.Proof.ParserOutcome

/-!
# Outcomes of the second parser

A contract says what holds of the database with its session, of iterators, of the lexer and of tokens while a
command is parsed, and which faults may end it. Where the lexer, the expressions and the actions on rows keep to
it, so do the rules of `execute.y`.
-/

namespace Scroller.Execute

open Outcome

/-- What is to hold while a command is parsed. -/
structure Contract where
  state : Db → Session → Prop
  titor : Db → Option Titor → Prop
  lexer : Db → BcItor → Prop
  token : BcNode → Prop
  datum : Datum → Prop
  fault : Fault → Prop

namespace Contract

variable (c : Contract)

def stop (e : Stop) : Prop := ∀ fault, e = .fault fault → c.fault fault

def halt : Halt → Prop
  | .abort w => c.state w.db w.session
  | .fault fault => c.fault fault

/-- The values of the left sides: truth values are free. -/
def value : {n : Nonterminal} → n.Value → Prop
  | .or, _ | .and, _ | .not, _ | .cmp, _ => True
  | .additive, d | .multiplicative, d | .atom, d => c.datum d

/-- The contract holds of a state of the parser. -/
structure Holds (s : Y2) : Prop where
  state : c.state s.db s.session
  titor : c.titor s.db s.titor
  look : s.look.Meets (c.lexer s.db) c.token

/-- Lexer, expressions and iterators keep to the contract. -/
structure Kept (cfg : Config) (fuel : Nat) (tokens : List BcNode) : Prop where
  diverges : c.fault .diverges
  lex : ∀ db session bc, c.state db session → c.lexer db bc →
    Ensures (fun r => c.lexer db r.1 ∧ ∀ x, r.2 = some x → c.token x) c.stop
      (BcItor.y2lex cfg fuel db tokens bc)
  value : ∀ db session titor d, c.state db session → c.titor db titor → c.token (.datum d) →
    Ensures c.datum c.stop (valueAction (titorColumns cfg db titor) d)
  reduce : ∀ columns {n} (r : Reduction Nonterminal.Value Datum n), r.Parts c.value c.datum →
    Ensures c.value c.stop ((evalActions cfg.build columns).reduce r)
  next : ∀ db session t, c.state db session → c.titor db (some t) →
    Ensures (fun t' => c.titor db (some t')) c.fault (titorNext cfg fuel db t)

/-- What is done with a row keeps to the contract. -/
def KeptBy (act : Titor → Work → Except Fault Work) : Prop :=
  ∀ w t, c.state w.db w.session → c.titor w.db (some t) → titorIsValid w.db t = true →
    Ensures (fun w' => c.state w'.db w'.session ∧ (∀ u, c.titor w.db u → c.titor w'.db u)
      ∧ ∀ bc, c.lexer w.db bc → c.lexer w'.db bc) c.fault (act t w)

section

variable {c}

theorem within {α : Type} {Q : α → Prop} {w : Work} {x : Except Stop α} (hw : c.state w.db w.session)
    (hx : Ensures Q c.stop x) : Ensures Q c.halt (Y2.within w x) := by
  cases x with
  | ok a => exact hx
  | error e =>
      cases e with
      | syntaxError => exact hw
      | mismatch => exact hw
      | fault fault => exact hx fault rfl

theorem perform {α : Type} {Q : α → Prop} {x : Except Fault α} (hx : Ensures Q c.fault x) :
    Ensures Q c.halt (Y2.perform x) := hx.mapError fun _ h => h

theorem call {α : Type} {Q : α → Prop} {x : Except Fault α} (hx : Ensures Q c.fault x) :
    Ensures Q c.stop (Execute.call x) := by
  refine hx.mapError fun fault h fault' heq => ?_
  cases heq
  exact h

theorem Holds.syntaxError {α : Type} {Q : α → Prop} {s : Y2} (hs : c.Holds s) :
    Ensures Q c.halt (s.syntaxError : Except Halt α) := hs.state

theorem Holds.send {s : Y2} (hs : c.Holds s) (pieces : List Piece) : c.Holds (s.send pieces) :=
  ⟨hs.state, hs.titor, hs.look⟩

theorem Holds.shift {s : Y2} (hs : c.Holds s) : c.Holds s.shift :=
  ⟨hs.state, hs.titor, Respects.shift hs.look⟩

variable {cfg : Config} {fuel : Nat} {tokens : List BcNode} (h : c.Kept cfg fuel tokens)
include h

theorem Kept.respects {db : Db} {session : Session} {titor : Option Titor} (hstate : c.state db session)
    (htitor : c.titor db titor) :
    Respects (y2lexer cfg fuel db tokens) (evalActions cfg.build (titorColumns cfg db titor))
      (c.lexer db) c.token c.value c.datum c.stop where
  lex bc hbc := h.lex db session bc hstate hbc
  syntaxError _ heq := nomatch heq
  diverges fault heq := by
    cases heq
    exact h.diverges
  value d hd := h.value db session titor d hstate htitor hd
  reduce r hr := h.reduce _ r hr

theorem Kept.peek {s : Y2} (hs : c.Holds s) :
    Ensures (fun r => c.Holds r.1 ∧ ∀ x, r.2 = some x → c.token x) c.halt (s.peek cfg fuel tokens) := by
  apply (within hs.state ((h.respects hs.state hs.titor).peek hs.look)).bind
  intro r hr
  exact ensures_ok ⟨⟨hs.state, hs.titor, hr.1⟩, hr.2⟩

theorem Kept.expect {s : Y2} (hs : c.Holds s) (token : BcNode) :
    Ensures c.Holds c.halt (s.expect cfg fuel tokens token) := by
  apply (h.peek hs).bind
  intro r hr
  apply Ensures.ite
  · exact fun _ => ensures_ok hr.1.shift
  · exact fun _ => hr.1.syntaxError

theorem Kept.string {s : Y2} (hs : c.Holds s) :
    Ensures (fun r => c.Holds r.1) c.halt (s.string cfg fuel tokens) := by
  apply (h.peek hs).bind
  intro r hr
  dsimp only
  split
  · exact ensures_ok hr.1.shift
  · exact hr.1.syntaxError

theorem Kept.strings {k : Nat} {s : Y2} (hs : c.Holds s) :
    Ensures (fun r => c.Holds r.1) c.halt (s.strings cfg fuel tokens k) := by
  induction k generalizing s with
  | zero => exact h.diverges
  | succ k ih =>
      rw [Y2.strings]
      apply (h.peek hs).bind
      intro r hr
      dsimp only
      split
      · apply (ih hr.1.shift).bind
        intro rest hrest
        exact ensures_ok hrest
      · exact ensures_ok hr.1

theorem Kept.stringArray {s : Y2} (hs : c.Holds s) :
    Ensures (fun r => c.Holds r.1) c.halt (s.stringArray cfg fuel tokens) := by
  apply (h.expect hs .arrayBegin).bind
  intro s hs
  apply (h.strings hs).bind
  intro r hr
  apply Ensures.ite
  · exact fun _ => hr.syntaxError
  · intro _
    apply (h.expect hr .arrayEnd).bind
    intro s hs
    exact ensures_ok hs

theorem Kept.decl {s : Y2} {size : UInt64} (hs : c.Holds s) :
    Ensures (fun r => c.Holds r.1 ∧ c.token (.type r.2.type)) c.halt
      (s.decl cfg fuel tokens size) := by
  apply (h.peek hs.shift).bind
  intro r hr
  dsimp only
  split
  · rename_i type htype
    apply (h.string hr.1.shift).bind
    intro name hname
    exact ensures_ok ⟨hname, hr.2 _ htype⟩
  · exact hr.1.syntaxError

theorem Kept.decls {k : Nat} {s : Y2} (hs : c.Holds s) :
    Ensures (fun r => c.Holds r.1 ∧ ∀ decl ∈ r.2, c.token (.type decl.type)) c.halt
      (s.decls cfg fuel tokens k) := by
  induction k generalizing s with
  | zero => exact h.diverges
  | succ k ih =>
      rw [Y2.decls]
      apply (h.peek hs).bind
      intro r hr
      dsimp only
      split
      · apply (h.decl hr.1).bind
        intro first hfirst
        apply (ih hfirst.1).bind
        intro rest hrest
        refine ensures_ok ⟨hrest.1, fun decl hdecl => ?_⟩
        rcases List.mem_cons.mp hdecl with rfl | hdecl
        · exact hfirst.2
        · exact hrest.2 decl hdecl
      · exact ensures_ok ⟨hr.1, fun decl hdecl => nomatch hdecl⟩

theorem Kept.valueArray {s : Y2} (hs : c.Holds s) :
    Ensures (fun r => c.Holds r.1) c.halt (s.valueArray cfg fuel tokens) := by
  apply (h.expect hs .arrayBegin).bind
  intro s hs
  apply (within hs.state ((h.respects hs.state hs.titor).values hs.look)).bind
  intro r hr
  have hs' : c.Holds { s with look := r.1 } := ⟨hs.state, hs.titor, hr.1⟩
  apply Ensures.ite
  · exact fun _ => hs'.syntaxError
  · intro _
    apply (h.expect hs' .arrayEnd).bind
    intro s hs
    exact ensures_ok hs

/-! ### Rows -/

variable {act : Titor → Work → Except Fault Work} (hact : c.KeptBy act)
include hact

theorem Kept.allRows {k : Nat} {w : Work} {row : Titor} {look : Look BcItor}
    (hstate : c.state w.db w.session) (hrow : c.titor w.db (some row)) (titor : Option Titor)
    (htitor : c.titor w.db titor) (hlook : look.Meets (c.lexer w.db) c.token) :
    Ensures (fun r => c.state r.1.db r.1.session ∧ c.titor r.1.db (some r.2)
      ∧ c.titor r.1.db titor ∧ look.Meets (c.lexer r.1.db) c.token) c.fault
      (Y2.allRows cfg fuel act k w row) := by
  induction k generalizing w row with
  | zero => exact h.diverges
  | succ k ih =>
      rw [Y2.allRows]
      split
      · rename_i hvalid
        apply (hact w row hstate hrow hvalid).bind
        rintro w' ⟨hstate', htitors, hlexers⟩
        apply (h.next w'.db w'.session row hstate' (htitors _ hrow)).bind
        intro row' hrow'
        exact ih hstate' hrow' (htitors _ htitor) ⟨hlexers _ hlook.lexer, hlook.ahead⟩
      · exact ensures_ok ⟨hstate, hrow, htitor, hlook⟩

theorem Kept.lineAction {s : Y2} (hs : c.Holds s) (v : Int64) :
    Ensures c.Holds c.fault (Y2.lineAction cfg fuel act s v) := by
  unfold Y2.lineAction
  split
  · exact ensures_ok hs
  · rename_i row hrow
    have htitor : c.titor s.db (some row) := hrow ▸ hs.titor
    apply Ensures.ite
    · intro hvalid
      have hdone : Ensures (fun w => c.state w.db w.session ∧ c.titor w.db (some row)
          ∧ s.look.Meets (c.lexer w.db) c.token) c.fault
          (if v ≠ 0 then act row s.toWork else pure s.toWork) := by
        apply Ensures.ite
        · intro _
          apply (hact s.toWork row hs.state htitor hvalid).post
          rintro w ⟨hstate, htitors, hlexers⟩
          exact ⟨hstate, htitors _ htitor, hlexers _ hs.look.lexer, hs.look.ahead⟩
        · exact fun _ => ensures_ok ⟨hs.state, htitor, hs.look⟩
      have hnext (w : Work) (hw : c.state w.db w.session ∧ c.titor w.db (some row)
          ∧ s.look.Meets (c.lexer w.db) c.token) :
          Ensures c.Holds c.fault (do
            let row ← titorNext cfg fuel w.db row
            return { s with toWork := w, titor := some row }) := by
        apply (h.next w.db w.session row hw.1 hw.2.1).bind
        intro row' hrow'
        exact ensures_ok ⟨hw.1, hrow', hw.2.2⟩
      dsimp only at hdone ⊢
      split
      · rename_i hv
        rw [if_pos hv] at hdone
        exact hdone.bind hnext
      · rename_i hv
        rw [if_neg hv] at hdone
        exact hnext _ hdone
    · exact fun _ => ensures_ok hs

theorem Kept.line {s : Y2} (hs : c.Holds s) : Ensures c.Holds c.halt (s.line cfg fuel tokens act) := by
  apply (within hs.state (((h.respects hs.state hs.titor).allYield fuel).or s.look hs.look)).bind
  intro r hr
  have hs' : c.Holds { s with look := r.1, evaluated := s.evaluated ++ [s.titor] } :=
    ⟨hs.state, hs.titor, hr.1⟩
  exact perform (h.lineAction hact hs' r.2)

theorem Kept.lines {k : Nat} {s : Y2} (hs : c.Holds s) :
    Ensures c.Holds c.halt (s.lines cfg fuel tokens act k) := by
  induction k generalizing s with
  | zero => exact h.diverges
  | succ k ih =>
      rw [Y2.lines]
      apply (h.line hact hs).bind
      intro s hs
      apply (h.peek hs).bind
      intro r hr
      apply Ensures.ite
      · exact fun _ => ih hr.1
      · exact fun _ => ensures_ok hr.1

/-- `delete_mb_where` and `select_mb_where` keep to the contract. -/
theorem Kept.mbWhere {s : Y2} {moves : Bool} (hs : c.Holds s) :
    Ensures c.Holds c.halt (s.mbWhere cfg fuel tokens act moves) := by
  apply (h.peek hs).bind
  intro r hr
  obtain ⟨s, ahead⟩ := r
  have hs : c.Holds s := hr.1
  dsimp only
  split
  · exact h.lines hact hs.shift
  · split
    · exact ensures_ok hs
    · rename_i row hrow
      have htitor : c.titor s.db (some row) := hrow ▸ hs.titor
      apply Ensures.ite
      · intro _
        apply (perform (h.allRows hact hs.state htitor s.titor hs.titor hs.look)).bind
        rintro ⟨w, row'⟩ ⟨hstate, hrow', htitor', hlook⟩
        refine ensures_ok ⟨hstate, ?_, hlook⟩
        dsimp only
        split
        · exact hrow'
        · exact htitor'
      · exact fun _ => ensures_ok hs

end

end Contract

end Scroller.Execute

import Scroller.Proof.FirstCommands

/-!
# The queries of a session

What a session does with its tokens, whatever they are: the commands of the grammar are executed where they stand, and
where there is none the parser goes on behind the next `;`.
-/

namespace Scroller.Hquery

open Descent

variable {S : Type} {build : Build} {x : SessionActions S}

/-- The tokens that the part of a command in front of an error puts. -/
def residue (catalog : Bool) (tokens : List Token) : List BcNode :=
  match Y1.command catalog ⟨tokens, []⟩ with
  | .error (.misplaced s) => s.out
  | _ => []

/-- The tokens behind a place in a session, with what is made of them: the grammar of `session` with its rule for
errors. A command is put behind what an error has left in the array of the bytecode. -/
inductive Serves (build : Build) (x : SessionActions S) :
    Behind → S → Bc BcNode → List Token → S → Nat → Prop where
  | eof (behind : Behind) (a : S) (bc : Bc BcNode) :
      Serves build x behind a bc [] a (if behind = .query then 0 else 1)
  | newline {behind : Behind} {a a' : S} {bc : Bc BcNode} {tokens : List Token} {ret : Nat}
      (hbehind : behind ≠ .error)
      (h : Serves build x .query (if behind = .semicolon then a else x.sendOk a) bc tokens a' ret) :
      Serves build x behind a bc (.newline :: tokens) a' ret
  | command {behind : Behind} {a a₁ a' : S} {bc bc₁ : Bc BcNode} {tokens : List Token} {ret : Nat}
      {succeeded : Bool} (hbehind : behind ≠ .error) (c : Cmd)
      (hputs : bc.puts build (c.emitted (x.catalog a)) = .ok bc₁)
      (hexec : x.execute a (bc₁.tokens.map DynArray.toList) = .ok (a₁, succeeded))
      (h : Serves build x (if succeeded then .semicolon else .error) a₁ (bc₁.reset build) tokens a' ret) :
      Serves build x behind a bc (c.tokens ++ .semicolon :: tokens) a' ret
  | syntaxError {behind : Behind} {a a' : S} {bc bc₁ : Bc BcNode} {tokens : List Token} {ret : Nat}
      (hbehind : behind ≠ .error) (hne : tokens ≠ []) (hnewline : tokens.head? ≠ some .newline)
      (hnone : ∀ c : Cmd, ∀ rest, tokens ≠ c.tokens ++ .semicolon :: rest)
      (hputs : bc.puts build (residue (x.catalog a) tokens) = .ok bc₁)
      (h : Serves build x .error a bc₁ tokens a' ret) : Serves build x behind a bc tokens a' ret
  | skip {a a' : S} {bc : Bc BcNode} {token : Token} {tokens : List Token} {ret : Nat}
      (htoken : token ≠ .semicolon) (h : Serves build x .error a bc tokens a' ret) :
      Serves build x .error a bc (token :: tokens) a' ret
  | resume {a a' : S} {bc : Bc BcNode} {tokens : List Token} {ret : Nat}
      (h : Serves build x .semicolon a bc tokens a' ret) : Serves build x .error a bc (.semicolon :: tokens) a' ret

/-- A command starts with a token that is neither a newline nor the end of a command. -/
theorem Cmd.tokens_head (c : Cmd) :
    ∃ token ts, c.tokens = token :: ts ∧ token ≠ .newline ∧ token ≠ .semicolon := by
  cases c with
  | row cmd clause =>
      cases cmd with
      | delete schema table => exact ⟨.delete, _, rfl, nofun, nofun⟩
      | select schema table name names => exact ⟨.select, _, rfl, nofun, nofun⟩
  | _ => exact ⟨_, _, rfl, nofun, nofun⟩

section Steps

variable {fuel ret : Nat} {behind : Behind} {a a' : S} {bc : Bc BcNode} {tokens : List Token}

theorem queries_command (hbehind : behind ≠ .error) {token : Token} (htoken : token ≠ .newline) :
    queries build x (fuel + 1) behind a bc (token :: tokens)
      = match Y1.command (x.catalog a) ⟨token :: tokens, []⟩ with
        | .ok s => do
            let bc ← bc.puts build s.out
            let (a, succeeded) ← x.execute a (bc.tokens.map DynArray.toList)
            queries build x fuel (if succeeded then .semicolon else .error) a (bc.reset build) s.tokens
        | .error (.misplaced s) => do
            let bc ← bc.puts build s.out
            queries build x fuel .error a bc s.tokens
        | .error .diverges => .error .diverges := by
  cases behind with
  | error => exact absurd rfl hbehind
  | header | query | semicolon => exact if_neg htoken

theorem queries_newline (hbehind : behind ≠ .error) :
    queries build x (fuel + 1) behind a bc (.newline :: tokens)
      = queries build x fuel .query (if behind = .semicolon then a else x.sendOk a) bc tokens := by
  cases behind with
  | error => exact absurd rfl hbehind
  | header | query | semicolon => rfl

theorem queries_skip {ts : List Token} (hstop : .semicolon ∉ ts) :
    queries build x (fuel + ts.length) .error a bc (ts ++ tokens) = queries build x fuel .error a bc tokens := by
  induction ts with
  | nil => rfl
  | cons token ts ih =>
      obtain ⟨htoken, hstop⟩ := not_or.mp (mt List.mem_cons.mpr hstop)
      rw [List.length_cons, ← Nat.add_assoc, List.cons_append, queries, if_neg (Ne.symm htoken), ih hstop]

theorem Serves.skips {ts : List Token} (hstop : .semicolon ∉ ts) (h : Serves build x .error a bc tokens a' ret) :
    Serves build x .error a bc (ts ++ tokens) a' ret := by
  induction ts with
  | nil => exact h
  | cons token ts ih =>
      obtain ⟨htoken, hstop⟩ := not_or.mp (mt List.mem_cons.mpr hstop)
      exact .skip (Ne.symm htoken) (ih hstop)

/-- What the parser does is in the grammar. -/
theorem serves_of_queries (h : queries build x fuel behind a bc tokens = .ok (a', ret)) :
    Serves build x behind a bc tokens a' ret := by
  induction fuel generalizing behind a bc tokens with
  | zero => cases h
  | succ fuel ih =>
      cases tokens with
      | nil =>
          rw [queries] at h
          cases h
          exact .eof _ _ _
      | cons token tokens =>
          by_cases hbehind : behind = .error
          · subst hbehind
            rw [queries] at h
            split at h
            · next htoken =>
              subst htoken
              exact .resume (ih h)
            · next htoken => exact .skip htoken (ih h)
          · by_cases hnewline : token = .newline
            · subst hnewline
              rw [queries_newline hbehind] at h
              exact .newline hbehind (ih h)
            · rw [queries_command hbehind hnewline] at h
              rcases command_cases (x.catalog a) ⟨token :: tokens, []⟩ with
                ⟨c, rest, htokens, hcommand⟩ | ⟨hnone, ts, s, htokens, hstop, hcommand⟩
              · rw [hcommand] at h
                obtain ⟨bc₁, hputs, h⟩ := bind_eq_ok.mp h
                obtain ⟨⟨a₁, succeeded⟩, hexec, h⟩ := bind_eq_ok.mp h
                rw [show token :: tokens = c.tokens ++ .semicolon :: rest from htokens]
                exact .command hbehind c hputs hexec (ih h)
              · rw [hcommand] at h
                obtain ⟨bc₁, hputs, h⟩ := bind_eq_ok.mp h
                have hhead : (token :: tokens).head? ≠ some .newline := fun hhead => hnewline (Option.some.inj hhead)
                have hresidue : residue (x.catalog a) (token :: tokens) = s.out := by
                  rw [residue, hcommand]
                refine .syntaxError hbehind (List.cons_ne_nil _ _) hhead hnone (hresidue ▸ hputs) ?_
                rw [show token :: tokens = ts ++ s.tokens from htokens]
                exact (ih h).skips hstop

/-- What is in the grammar the parser does, with enough fuel. -/
theorem queries_of_serves (h : Serves build x behind a bc tokens a' ret)
    (hfuel : 2 * tokens.length + (if behind = .error then 0 else 1) < fuel) :
    queries build x fuel behind a bc tokens = .ok (a', ret) := by
  induction h generalizing fuel with
  | eof behind a bc =>
      obtain ⟨fuel, rfl⟩ := Nat.exists_eq_add_one_of_ne_zero (Nat.ne_zero_of_lt hfuel)
      rw [queries]
      rfl
  | newline hbehind h ih =>
      obtain ⟨fuel, rfl⟩ := Nat.exists_eq_add_one_of_ne_zero (Nat.ne_zero_of_lt hfuel)
      rw [if_neg hbehind, List.length_cons] at hfuel
      rw [queries_newline hbehind]
      refine ih ?_
      rw [if_neg nofun]
      omega
  | @command behind a a₁ a' bc bc₁ tokens ret succeeded hbehind c hputs hexec h ih =>
      obtain ⟨fuel, rfl⟩ := Nat.exists_eq_add_one_of_ne_zero (Nat.ne_zero_of_lt hfuel)
      obtain ⟨token, ts, htokens, hnewline, -⟩ := c.tokens_head
      have hcommand := command_eq (x.catalog a) c tokens []
      rw [htokens, List.cons_append] at hcommand
      rw [if_neg hbehind, List.length_append, htokens, List.length_cons, List.length_cons] at hfuel
      rw [htokens, List.cons_append, queries_command hbehind hnewline, hcommand]
      dsimp only
      rw [List.nil_append, hputs]
      dsimp only [bind, Except.bind]
      rw [hexec]
      refine ih ?_
      have hlast (b : Behind) : (if b = .error then 0 else 1) ≤ 1 := by
        split
        · exact Nat.zero_le 1
        · exact Nat.le_refl 1
      have := hlast (if succeeded then .semicolon else .error)
      omega
  | @syntaxError behind a a' bc bc₁ tokens ret hbehind hne hnewline hnone hputs h ih =>
      obtain ⟨fuel, rfl⟩ := Nat.exists_eq_add_one_of_ne_zero (Nat.ne_zero_of_lt hfuel)
      obtain ⟨token, tokens, rfl⟩ := List.exists_cons_of_ne_nil hne
      have htoken : token ≠ .newline := fun h => hnewline (congrArg some h)
      rcases command_cases (x.catalog a) ⟨token :: tokens, []⟩ with
        ⟨c, rest, htokens, -⟩ | ⟨-, ts, s, htokens, hstop, hcommand⟩
      · exact absurd htokens (hnone c rest)
      · rw [if_neg hbehind] at hfuel
        have hlater : queries build x (fuel + ts.length) .error a bc₁ (token :: tokens) = .ok (a', ret) := by
          refine ih ?_
          rw [if_pos rfl]
          omega
        rw [residue, hcommand] at hputs
        rw [queries_command hbehind htoken, hcommand]
        rw [show token :: tokens = ts ++ s.tokens from htokens, queries_skip hstop] at hlater
        dsimp only at hputs ⊢
        rw [hputs]
        exact hlater
  | skip htoken h ih =>
      obtain ⟨fuel, rfl⟩ := Nat.exists_eq_add_one_of_ne_zero (Nat.ne_zero_of_lt hfuel)
      rw [if_pos rfl, List.length_cons] at hfuel
      rw [queries, if_neg htoken]
      refine ih ?_
      rw [if_pos rfl]
      omega
  | resume h ih =>
      obtain ⟨fuel, rfl⟩ := Nat.exists_eq_add_one_of_ne_zero (Nat.ne_zero_of_lt hfuel)
      rw [if_pos rfl, List.length_cons] at hfuel
      rw [queries, if_pos rfl]
      refine ih ?_
      rw [if_neg nofun]
      omega

end Steps

/-- **The first parser.** On every list of tokens a session does what the grammar says, commands and errors alike: the
tokens of a command of the grammar with its `;` are put into the array where it stands, behind what an error has left
there, and what the array holds is executed; everything else up to the next `;` is passed over without an answer. -/
theorem serve_iff (build : Build) (zero : BcNode) (x : SessionActions S) (a a' : S) (tokens : List Token) (ret : Nat) :
    serve build zero x a tokens = .ok (a', ret) ↔ Serves build x .header a (Bc.init build zero) tokens a' ret := by
  refine ⟨serves_of_queries, fun h => queries_of_serves h ?_⟩
  rw [if_neg nofun]
  omega

end Scroller.Hquery

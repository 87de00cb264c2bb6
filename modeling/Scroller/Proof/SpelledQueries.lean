import Scroller.Proof.RowCommands
import Scroller.Proof.BcTokens
import Scroller.Proof.SessionQueries
import Scroller.Proof.Tokens

/-!
# Queries that are spelled out

A text for every list of tokens, with a blank behind each of them, that is scanned back to the tokens whatever follows.
A session that reads the text of some commands executes these commands.
-/

namespace Scroller.Hquery

open Regex

/-! ### Texts of tokens -/

/-- The first word of a token. -/
def Token.word? (token : Token) : Option (List UInt8 × Token) := words.find? fun k => k.2 = token

/-- Names stand between double quotes, so that none is a keyword. -/
def Token.text : Token → List UInt8
  | .string str => Quote.single.quote str
  | .id str => Quote.double.quote str
  | .vinteger v => integerText (v.toInt < 0) v.toInt.natAbs
  | .semicolon => ascii ";"
  | .newline => ascii "$$"
  | token => (token.word?.map Prod.fst).getD []

/-- What stands between quotes. -/
def Token.quoted? : Token → Option (List UInt8)
  | .string str | .id str => some str
  | _ => none

/-- A quoted text has no null byte, and a backslash at its end would take the quote with it. -/
def Token.Spellable (token : Token) : Prop := ∀ str ∈ token.quoted?, 0 ∉ str ∧ str.getLast? ≠ some 92

instance (token : Token) : Decidable token.Spellable := inferInstanceAs (Decidable (∀ str ∈ token.quoted?, _))

theorem spellable_of_none {token : Token} (h : token.quoted? = none) : token.Spellable := by
  intro str hstr
  rw [h] at hstr
  cases hstr

/-- The text of some tokens. -/
def spelled (tokens : List Token) : List UInt8 := tokens.flatMap fun token => token.text ++ [32]

section Scanning

variable {memory : Nat → Nat → UInt8} {rest : List UInt8}

theorem matches_derivs {r : Regex UInt8} {u w : List UInt8} :
    (u.foldl (fun r c => deriv c r) r).Matches w ↔ r.Matches (u ++ w) := by
  induction u generalizing r with
  | nil => exact Iff.rfl
  | cons c u ih => exact ih.trans deriv_iff

/-- Behind a text and a blank there is nothing left to match. -/
def ended (u : List UInt8) (r : Regex UInt8) : Bool :=
  let r := deriv 32 (u.foldl (fun r c => deriv c r) r)
  r.stuck && ! r.nullable

theorem not_matches_of_ended {r : Regex UInt8} {u v : List UInt8} (h : ended u r = true) :
    ¬ r.Matches (u ++ 32 :: v) := by
  obtain ⟨hstuck, hnull⟩ := (Bool.and_eq_true _ _).mp h
  intro hmatch
  have hv := deriv_iff.mpr (matches_derivs.mpr hmatch)
  cases eq_nil_of_stuck hstuck hv
  rw [nullable_iff.mpr hv] at hnull
  cases hnull

/-- A text that ends with a blank. -/
theorem tokenize_ended {u : List UInt8} {i : Nat} {k : List UInt8 × Token} (hrule : rules[i]? = some (wordRule k))
    (hlongest : longest patterns u = some (i, u.length)) (hended : patterns.all (ended u) = true) :
    tokenize memory (u ++ 32 :: rest) = (do
      let tokens ← tokenize memory rest
      return k.2 :: tokens) := by
  have hmiss : ∀ t, t ≠ [] → t <+: 32 :: rest → ∀ r ∈ patterns, ¬ r.Matches (u ++ t) := by
    intro t ht hprefix r hr
    obtain ⟨c, v, rfl, hc⟩ := head_of_prefix ht hprefix
    cases hc
    exact not_matches_of_ended (List.all_eq_true.mp hended r hr)
  rw [tokenize_append (IsLongest.append (longest_isLongest hlongest) hmiss) hrule, tokenize_space rfl]
  rfl

/-- A word and a blank. -/
theorem tokenize_keyword {k : List UInt8 × Token} (hk : k ∈ words) :
    tokenize memory (k.1 ++ 32 :: rest) = (do
      let tokens ← tokenize memory rest
      return k.2 :: tokens) := by
  obtain ⟨j, hj⟩ := List.mem_iff_getElem?.mp hk
  have hlt := (List.getElem?_eq_some_iff.mp hj).1
  by_cases hletters : k.1.all ALPHA = true
  · have hwords : ∀ k ∈ words, k.1.all ALPHA = true → k.1 ≠ [] ∧ wordToken k.1 = k.2 := by decide
    obtain ⟨hne, hword⟩ := hwords k hk hletters
    obtain ⟨c, w, hw⟩ := List.exists_cons_of_ne_nil hne
    have hstring : STRING.Matches k.1 := by
      rw [hw, List.all_cons, Bool.and_eq_true] at hletters
      rw [hw]
      exact matches_STRING.mpr ⟨hletters.1, fun d hd => alnum_of_alpha (List.all_eq_true.mp hletters.2 d hd)⟩
    have hapart : Apart (32 :: rest) := by
      intro c hc
      cases hc
      rfl
    rw [tokenize_word hstring hapart, tokenize_space rfl, hword]
  · have hsigns : ∀ j < words.length, (words[j]?.all fun k => k.1.all ALPHA
        || (longest patterns k.1 = some (j + 2, k.1.length) && patterns.all (ended k.1))) = true := by decide
    have hsign := hsigns j hlt
    rw [hj, Option.all_some, Bool.or_eq_true, or_iff_right hletters, Bool.and_eq_true, decide_eq_true_iff] at hsign
    refine tokenize_ended ?_ hsign.1 hsign.2
    have hplace : (words.map wordRule)[j]? = some (wordRule k) := by rw [List.getElem?_map, hj]; rfl
    have hinside : j < (words.map wordRule).length := by rwa [List.length_map]
    rw [rules, List.append_assoc, List.getElem?_append_right (Nat.le_add_left 2 j)]
    exact (List.getElem?_append_left hinside).trans hplace

theorem tokenize_quote (q : Quote) {s : List UInt8} (hnul : 0 ∉ s) (hend : s.getLast? ≠ some 92) :
    tokenize memory (q.quote s ++ 32 :: rest) = (do
      let tokens ← tokenize memory rest
      return q.token s :: tokens) := by
  have htext : q.quote s ++ 32 :: rest = q.char :: (q.escape s ++ q.char :: 32 :: rest) := by
    rw [Quote.quote, List.cons_append, List.append_assoc]
    rfl
  have hfuel : scan memory (q.char :: (q.escape s ++ q.char :: 32 :: rest)).length (32 :: rest)
      = tokenize memory (32 :: rest) := by
    refine scan_fuel ?_ (Nat.lt_succ_self _)
    simp only [List.length_cons, List.length_append]
    omega
  have hspace : tokenize memory (32 :: rest) = tokenize memory rest := tokenize_space (by decide) rest
  rw [htext, ← hspace, ← hfuel]
  exact scan_literal hnul (.inl hend)

theorem integer_toInt (v : Int64) : integer (v.toInt < 0) v.toInt.natAbs = .ok v := by
  have hvalue : integerOf (v.toInt < 0) v.toInt.natAbs = v.toInt := by
    unfold integerOf
    split <;> simp only [decide_eq_true_iff] at * <;> omega
  have hfits : FitsInt64 v.toInt := ⟨v.le_toInt, v.toInt_lt⟩
  rw [integer, hvalue, if_pos hfits, Int64.ofInt_toInt]

/-- The text of a token with a blank behind it. -/
theorem tokenize_text {token : Token} (h : token.Spellable) :
    tokenize memory (token.text ++ 32 :: rest) = (do
      let tokens ← tokenize memory rest
      return token :: tokens) := by
  have hword : ∀ k, token.word? = some k → token.text = k.1 →
      tokenize memory (token.text ++ 32 :: rest) = (do
        let tokens ← tokenize memory rest
        return token :: tokens) := by
    intro k hk htext
    rw [htext, tokenize_keyword (List.mem_of_find?_eq_some hk)]
    have hfind : words.find? (fun k => k.2 = token) = some k := hk
    have htoken : k.2 = token := by simpa using List.find?_some hfind
    rw [htoken]
  cases token with
  | string str => exact tokenize_quote .single (h str rfl).1 (h str rfl).2
  | id str => exact tokenize_quote .double (h str rfl).1 (h str rfl).2
  | vinteger v =>
      have hapart : Apart (32 :: rest) := by
        intro c hc
        cases hc
        rfl
      have htext : (Token.vinteger v).text = integerText (v.toInt < 0) v.toInt.natAbs := rfl
      have hspace : tokenize memory (32 :: rest) = tokenize memory rest :=
        tokenize_space (by decide) rest
      rw [htext, tokenize_integer _ _ hapart, integer_toInt, hspace]
      rfl
  | semicolon => exact tokenize_ended (i := 53) rfl (by decide) (by decide)
  | newline => exact tokenize_ended (i := 54) rfl (by decide) (by decide)
  | cmp op | additive op | multiplicative op => cases op <;> exact hword _ rfl rfl
  | _ => exact hword _ rfl rfl

/-- Tokens that are spelled out are scanned back. -/
theorem tokenize_spelled {tokens : List Token} (h : ∀ token ∈ tokens, token.Spellable) :
    tokenize memory (spelled tokens ++ rest) = (do
      let ts ← tokenize memory rest
      return tokens ++ ts) := by
  induction tokens with
  | nil => exact (bind_pure _).symm
  | cons token tokens ih =>
      have htext : spelled (token :: tokens) ++ rest = token.text ++ 32 :: (spelled tokens ++ rest) := by
        rw [spelled, List.flatMap_cons, List.append_assoc, List.append_assoc]
        rfl
      rw [htext, tokenize_text (h token List.mem_cons_self), ih fun t ht => h t (List.mem_cons_of_mem _ ht), bind_assoc]
      rfl

end Scanning

/-! ### Sessions -/

variable {S : Type} {build : Build} {x : SessionActions S}

/-- The tokens of a query of some commands. -/
def queryTokens (cmds : List Cmd) : List Token := (cmds.flatMap fun c => c.tokens ++ [.semicolon]) ++ [.newline]

/-- What the array of a session is for a command that it has room for: none, where there was none and no token is put. -/
def bytecode (bc : Bc BcNode) (nodes : List BcNode) : Option (List BcNode) :=
  match bc.tokens, nodes with
  | none, [] => none
  | _, nodes => some nodes

/-- The commands of a query are executed one after the other and succeed. The array has room for the tokens of each of
them, and each is executed with its own bytecode. -/
inductive Executes (build : Build) (x : SessionActions S) : Bc BcNode → S → List Cmd → Bc BcNode → S → Prop where
  | done (bc : Bc BcNode) (a : S) : Executes build x bc a [] bc a
  | cmd {bc bc₁ bc' : Bc BcNode} {a a₁ a' : S} {c : Cmd} {cmds : List Cmd}
      (hroom : (c.emitted (x.catalog a)).length ≤ bc.room build)
      (hputs : bc.puts build (c.emitted (x.catalog a)) = .ok bc₁)
      (hexec : x.execute a (bytecode bc (c.emitted (x.catalog a))) = .ok (a₁, true))
      (h : Executes build x (bc₁.reset build) a₁ cmds bc' a') : Executes build x bc a (c :: cmds) bc' a'

/-- The queries of a session one after the other; only an empty one is answered by itself. -/
inductive ExecutesAll (build : Build) (x : SessionActions S) : Bc BcNode → S → List (List Cmd) → S → Prop where
  | done (bc : Bc BcNode) (a : S) : ExecutesAll build x bc a [] a
  | empty {bc : Bc BcNode} {a a' : S} {queries : List (List Cmd)}
      (h : ExecutesAll build x bc (x.sendOk a) queries a') : ExecutesAll build x bc a ([] :: queries) a'
  | query {bc bc₁ : Bc BcNode} {a a₁ a' : S} {c : Cmd} {cmds : List Cmd} {queries : List (List Cmd)}
      (hquery : Executes build x bc a (c :: cmds) bc₁ a₁) (h : ExecutesAll build x bc₁ a₁ queries a') :
      ExecutesAll build x bc a ((c :: cmds) :: queries) a'

theorem puts_bytecode {bc bc₁ : Bc BcNode} {nodes : List BcNode} (hclean : bc.Clean build)
    (hroom : nodes.length ≤ bc.room build) (hputs : bc.puts build nodes = .ok bc₁) :
    bc₁.tokens.map DynArray.toList = bytecode bc nodes ∧ (bc₁.reset build).Clean build := by
  obtain ⟨bc₂, hputs₂, hlist, hreset⟩ := hclean.puts hroom
  cases hputs.symm.trans hputs₂
  refine ⟨?_, hreset⟩
  cases nodes with
  | nil =>
      cases hputs
      unfold bytecode
      cases htokens : bc.tokens with
      | none => rfl
      | some a =>
          have hempty := hclean.empty
          unfold Bc.toList at hempty
          rw [htokens] at hempty
          exact congrArg some hempty
  | cons node nodes =>
      rw [Bc.map_tokens hlist (List.cons_ne_nil node nodes)]
      unfold bytecode
      cases bc.tokens with
      | none => rfl
      | some a => rfl

/-- A command behind nothing but commands. -/
theorem serves_cmd {behind : Behind} {a a₁ a' : S} {bc bc₁ : Bc BcNode} {tokens : List Token} {ret : Nat}
    (hbehind : behind ≠ .error) (hclean : bc.Clean build) {c : Cmd}
    (hroom : (c.emitted (x.catalog a)).length ≤ bc.room build)
    (hputs : bc.puts build (c.emitted (x.catalog a)) = .ok bc₁)
    (hexec : x.execute a (bytecode bc (c.emitted (x.catalog a))) = .ok (a₁, true))
    (h : Serves build x .semicolon a₁ (bc₁.reset build) tokens a' ret) :
    Serves build x behind a bc (c.tokens ++ .semicolon :: tokens) a' ret := by
  rw [← (puts_bytecode hclean hroom hputs).1] at hexec
  exact .command hbehind c hputs hexec h

theorem Executes.serves {bc bc' : Bc BcNode} {a a' a'' : S} {cmds : List Cmd} {tokens : List Token}
    {ret : Nat} (h : Executes build x bc a cmds bc' a') (hclean : bc.Clean build)
    (hrest : bc'.Clean build → Serves build x .semicolon a' bc' tokens a'' ret) :
    Serves build x .semicolon a bc ((cmds.flatMap fun c => c.tokens ++ [.semicolon]) ++ tokens) a'' ret := by
  induction h with
  | done bc a => exact hrest hclean
  | @cmd bc bc₁ bc' a a₁ a' c cmds hroom hputs hexec h ih =>
      have hbehind : Behind.semicolon ≠ .error := Behind.noConfusion
      have hclean₁ := (puts_bytecode hclean hroom hputs).2
      have hnext := serves_cmd hbehind hclean hroom hputs hexec (ih hclean₁ hrest)
      rw [List.flatMap_cons, List.append_assoc, List.append_assoc]
      exact hnext

/-- The end of the input comes behind a query. -/
theorem ExecutesAll.serves {bc : Bc BcNode} {a a' : S} {queries : List (List Cmd)} {behind : Behind}
    (h : ExecutesAll build x bc a queries a') (hclean : bc.Clean build)
    (hbehind : behind = .header ∨ behind = .query) :
    Serves build x behind a bc (queries.flatMap queryTokens) a' (if behind = .header ∧ queries = [] then 1 else 0) := by
  induction h generalizing behind with
  | done bc a =>
      rcases hbehind with rfl | rfl
      · exact .eof .header a bc
      · exact .eof .query a bc
  | @empty bc a a' queries h ih =>
      have hnext := ih hclean (.inr rfl)
      rw [if_neg (by rintro ⟨⟨⟩, -⟩)] at hnext
      rw [if_neg (by rintro ⟨-, ⟨⟩⟩)]
      refine .newline ?_ ?_
      · rcases hbehind with rfl | rfl <;> exact Behind.noConfusion
      · rwa [if_neg (by rcases hbehind with rfl | rfl <;> exact Behind.noConfusion)]
  | @query bc bc₁ a a₁ a' c cmds queries hquery h ih =>
      rw [if_neg (by rintro ⟨-, ⟨⟩⟩)]
      cases hquery with
      | @cmd _ bc₂ _ _ a₂ _ _ _ hroom hputs hexec hcmds =>
          have hlast : bc₁.Clean build →
              Serves build x .semicolon a₁ bc₁ (.newline :: queries.flatMap queryTokens) a' 0 := by
            intro hclean₁
            have hnext := ih hclean₁ (.inr rfl)
            rw [if_neg (by rintro ⟨⟨⟩, -⟩)] at hnext
            exact .newline Behind.noConfusion hnext
          have hrest := hcmds.serves (puts_bytecode hclean hroom hputs).2 hlast
          have hbehind' : behind ≠ .error := by rcases hbehind with rfl | rfl <;> exact Behind.noConfusion
          have hfirst := serves_cmd hbehind' hclean hroom hputs hexec hrest
          have htokens : (c :: cmds).flatMap (fun c => c.tokens ++ [Token.semicolon]) ++ [.newline]
                ++ queries.flatMap queryTokens
              = c.tokens ++ .semicolon :: ((cmds.flatMap fun c => c.tokens ++ [.semicolon])
                ++ .newline :: queries.flatMap queryTokens) := by simp
          rw [List.flatMap_cons, queryTokens, htokens]
          exact hfirst

/-- **What is spelled out is executed.** The text of the queries of a session is scanned to their tokens, and a session
that reads them, with room for the tokens of each command, executes every command with its own bytecode, in their
order, and ends without an error. -/
theorem spelled_served (build : Build) (zero : BcNode) (x : SessionActions S) (memory : Nat → Nat → UInt8) {a a' : S} {queries : List (List Cmd)}
    (hspellable : ∀ cmds ∈ queries, ∀ c ∈ cmds, ∀ token ∈ c.tokens, token.Spellable)
    (hexecutes : ExecutesAll build x (Bc.init build zero) a queries a') :
    ∃ tokens, tokenize memory (spelled (queries.flatMap queryTokens)) = .ok tokens
      ∧ serve build zero x a tokens = .ok (a', if queries = [] then 1 else 0) := by
  have hall : ∀ token ∈ queries.flatMap queryTokens, token.Spellable := by
    intro token htoken
    obtain ⟨cmds, hcmds, htoken⟩ := List.mem_flatMap.mp htoken
    rcases List.mem_append.mp htoken with htoken | htoken
    · obtain ⟨c, hc, htoken⟩ := List.mem_flatMap.mp htoken
      rcases List.mem_append.mp htoken with htoken | htoken
      · exact hspellable cmds hcmds c hc token htoken
      · rw [List.mem_singleton.mp htoken]
        exact spellable_of_none rfl
    · rw [List.mem_singleton.mp htoken]
      exact spellable_of_none rfl
  refine ⟨queries.flatMap queryTokens, ?_, ?_⟩
  · have hscan := @tokenize_spelled memory [] _ hall
    rw [List.append_nil] at hscan
    exact hscan.trans (congrArg Except.ok (List.append_nil _))
  · have hserves := @ExecutesAll.serves S build x _ a a' queries .header hexecutes Bc.clean_init (.inl rfl)
    simp only [true_and] at hserves
    refine queries_of_serves hserves ?_
    rw [if_neg Behind.noConfusion]
    omega

/-- A session with what it has sent. -/
structure Served where
  db : Db
  session : Session
  sent : List Execute.Piece

/-- `execute_cmd` in a session whose `INSERT` commands find `leftover` on the stack. -/
def executing (cfg : Config) (fuel : Nat) (leftover : Option Tran) : SessionActions Served where
  catalog s := s.session.catalog.isSome
  sendOk s := { s with sent := s.sent ++ [.status .ok] }
  execute s bc := do
    let done ← Execute.executeCmd cfg fuel leftover s.db s.session bc
    return (⟨done.db, done.session, s.sent ++ done.sent⟩, done.succeeded)

/-- A user and a commit in one query, and an empty one behind it. -/
theorem spelled_served_user : ∃ tokens s, tokenize (fun _ _ => 0)
      (spelled ([[Cmd.createUser [97], .commit], []].flatMap queryTokens)) = .ok tokens
    ∧ serve .release .not (executing ⟨.release, 4096⟩ 9 none) ⟨Execute.smallDb 0, ⟨some [99], none⟩, []⟩ tokens = .ok (s, 0)
    ∧ s.sent = [.status .ok, .status .noTransaction, .status .ok] := by
  obtain ⟨s, hexecutes, hsent⟩ : ∃ s, ExecutesAll .release (executing ⟨.release, 4096⟩ 9 none) (Bc.init .release .not)
      ⟨Execute.smallDb 0, ⟨some [99], none⟩, []⟩ [[Cmd.createUser [97], .commit], []] s
        ∧ s.sent = [.status .ok, .status .noTransaction, .status .ok] :=
    ⟨_, .query (.cmd (by decide) rfl rfl (.cmd (by decide) rfl rfl (.done _ _))) (.empty (.done _ _)), rfl⟩
  have hspellable : ∀ cmds ∈ [[Cmd.createUser [97], .commit], []], ∀ c ∈ cmds, ∀ token ∈ c.tokens,
      token.Spellable := by
    decide
  obtain ⟨tokens, hscan, hserve⟩ :=
    spelled_served .release .not (executing ⟨.release, 4096⟩ 9 none) (fun _ _ => 0) hspellable hexecutes
  exact ⟨tokens, s, hscan, hserve, hsent⟩

end Scroller.Hquery

import Scroller.Proof.Tokens

/-!
# Blanks around operators

An arithmetic expression with the blanks it is written with. A minus sign right in front of a number is scanned as
the sign of the number, so that blanks matter there and nowhere else.
-/

namespace Scroller.Hquery

open Regex

/-! ### Expressions -/

inductive Operator where
  | add
  | sub
  | mul
  | div
  | mod
deriving DecidableEq

namespace Operator

def char : Operator → UInt8
  | add => 43
  | sub => 45
  | mul => 42
  | div => 47
  | mod => 37

def token : Operator → Token
  | add => .additive .add
  | sub => .additive .sub
  | mul => .multiplicative .mul
  | div => .multiplicative .div
  | mod => .multiplicative .mod

end Operator

/-- Spaces, tabs, carriage returns and newlines. -/
structure Blanks where
  text : List UInt8
  blank : ∀ c ∈ text, Blank c

def Blanks.none : Blanks := ⟨[], nofun⟩

/-- What `STRING` matches. -/
structure Name where
  text : List UInt8
  isString : STRING.Matches text

/-- A name between quotes. -/
structure QuotedName where
  text : List UInt8
  nul : (0 : UInt8) ∉ text
  backslash : text.getLast? ≠ some 92

/-- An arithmetic expression with its blanks. -/
inductive Spaced where
  | name (w : Name)
  | quoted (s : QuotedName)
  | number (n : Nat)
  | paren (left : Blanks) (e : Spaced) (right : Blanks)
  | bin (l : Spaced) (left : Blanks) (op : Operator) (right : Blanks) (r : Spaced)

namespace Spaced

def text : Spaced → List UInt8
  | name w => w.text
  | quoted s => Quote.double.quote s.text
  | number n => Decimal.ofNat n
  | paren left e right => 40 :: (left.text ++ (e.text ++ (right.text ++ [41])))
  | bin l left op right r => l.text ++ (left.text ++ op.char :: (right.text ++ r.text))

/-- The expression without the blanks around its operators. -/
def erase : Spaced → Spaced
  | name w => name w
  | quoted s => quoted s
  | number n => number n
  | paren left e right => paren left e.erase right
  | bin l _ op _ r => bin l.erase .none op .none r.erase

def startsWithNumber : Spaced → Bool
  | number _ => true
  | bin l _ _ _ _ => l.startsWithNumber
  | _ => false

/-- The operator is a minus sign right in front of a number. -/
def glued (op : Operator) (right : Blanks) (r : Spaced) : Bool :=
  op = .sub && right.text = [] && r.startsWithNumber

/-- Which minus signs stand right in front of a number. -/
def gluedSigns : Spaced → List Bool
  | paren _ e _ => e.gluedSigns
  | bin l _ op right r => l.gluedSigns ++ ((if op = .sub then [glued op right r] else []) ++ r.gluedSigns)
  | _ => []

/-- The integers that are scanned; `neg` says that a minus sign stands right in front of the expression. -/
def integers (neg : Bool) : Spaced → List Int
  | number n => [integerOf neg n]
  | paren _ e _ => e.integers false
  | bin l _ op right r => l.integers neg ++ r.integers (glued op right r)
  | _ => []

def tokens (neg : Bool) : Spaced → Except Fault (List Token)
  | name w => .ok [wordToken w.text]
  | quoted s => .ok [.id s.text]
  | number n => do
      let v ← integer neg n
      return [.vinteger v]
  | paren _ e _ => do
      let ts ← e.tokens false
      return .lparen :: (ts ++ [.rparen])
  | bin l _ op right r => do
      let ls ← l.tokens neg
      let rs ← r.tokens (glued op right r)
      return ls ++ ((if glued op right r then [] else [op.token]) ++ rs)

end Spaced

/-- Two texts have the same tokens, whatever the memory holds. -/
def SameTokens (s s' : List UInt8) : Prop :=
  ∃ tokens, ∀ memory, tokenize memory s = .ok tokens ∧ tokenize memory s' = .ok tokens

/-! ### Scanning -/

namespace Spaced

variable {memory : Nat → Nat → UInt8} {rest : List UInt8}

theorem apart_of_blank {c : UInt8} (h : Blank c) : ALNUM c = false := by
  rcases h with h | rfl
  · rcases space_cases h with rfl | rfl | rfl <;> decide
  · decide

theorem apart_blanks (b : Blanks) (h : Apart rest) : Apart (b.text ++ rest) := by
  obtain ⟨text, hblank⟩ := b
  cases text with
  | nil => exact h
  | cons c text =>
      intro d hd
      cases hd
      exact apart_of_blank (hblank c List.mem_cons_self)

theorem apart_operator (op : Operator) : Apart (op.char :: rest) := by
  intro d hd
  cases hd
  cases op <;> decide

theorem apart_rparen (rest : List UInt8) : Apart (41 :: rest) := by
  intro d hd
  cases hd
  decide

theorem of_glued {op : Operator} {right : Blanks} {r : Spaced} (h : glued op right r = true) :
    op = .sub ∧ right.text = [] ∧ r.startsWithNumber = true := by
  simpa [glued, and_assoc] using h

/-- An expression starts with a number, or with a letter, a quote or a parenthesis. -/
theorem head_text (e : Spaced) : ∃ c v, e.text = c :: v
    ∧ (e.startsWithNumber = false → c ≠ 45 ∧ NUM c = false) := by
  induction e with
  | name w =>
      have hne : w.text ≠ [] := by
        intro hnil
        have hmatch := w.isString
        rw [hnil] at hmatch
        cases nullable_iff.mpr hmatch
      obtain ⟨c, v, hc⟩ := List.exists_cons_of_ne_nil hne
      have halpha := (matches_STRING.mp (hc ▸ w.isString)).1
      refine ⟨c, v, hc, fun _ => ⟨?_, ?_⟩⟩
      · rintro rfl
        exact absurd halpha (by decide)
      · by_contra hnum
        cases (not_alpha_of_num (Bool.of_not_eq_false hnum)).symm.trans halpha
  | quoted s => exact ⟨34, _, rfl, fun _ => by decide⟩
  | number n =>
      obtain ⟨c, v, hc⟩ := List.exists_cons_of_ne_nil (Decimal.ofNat_ne_nil n)
      exact ⟨c, v, hc, nofun⟩
  | paren left e right ih => exact ⟨40, _, rfl, fun _ => by decide⟩
  | bin l left op right r ihl ihr =>
      obtain ⟨c, v, hc, hhead⟩ := ihl
      exact ⟨c, _, congrArg (· ++ _) hc, hhead⟩

theorem tokenize_operator {op : Operator} {right : Blanks} {r : Spaced} (h : glued op right r = false) :
    tokenize memory (op.char :: (right.text ++ (r.text ++ rest))) = (do
      let tokens ← tokenize memory (r.text ++ rest)
      return op.token :: tokens) := by
  rw [← tokenize_blanks right.blank (r.text ++ rest)]
  cases op with
  | add => exact tokenize_single (i := 44) (by decide) (by decide) rfl _
  | mul => exact tokenize_single (i := 46) (by decide) (by decide) rfl _
  | div => exact tokenize_single (i := 47) (by decide) (by decide) rfl _
  | mod => exact tokenize_single (i := 48) (by decide) (by decide) rfl _
  | sub =>
      refine tokenize_minus ?_
      obtain ⟨text, hblank⟩ := right
      cases text with
      | nil =>
          have hstart : r.startsWithNumber = false := h
          obtain ⟨c, v, hc, hhead⟩ := r.head_text
          rw [List.nil_append, hc]
          intro d hd
          cases hd
          exact hhead hstart
      | cons c text =>
          intro d hd
          cases hd
          refine ⟨?_, ?_⟩
          · rintro rfl
            rcases hblank 45 List.mem_cons_self with h | h <;> exact absurd h (by decide)
          · by_contra hnum
            cases (apart_of_blank (hblank c List.mem_cons_self)).symm.trans
              (alnum_of_num (Bool.of_not_eq_false hnum))

/-- The tokens of an expression, behind a minus sign or not, are those in front of the tokens of the rest. -/
theorem tokenize_text (e : Spaced) (neg : Bool) (hneg : neg = true → e.startsWithNumber = true)
    (hrest : Apart rest) :
    tokenize memory ((if neg then [45] else []) ++ (e.text ++ rest)) = (do
      let ts ← e.tokens neg
      let tokens ← tokenize memory rest
      return ts ++ tokens) := by
  induction e generalizing neg rest with
  | name w =>
      cases neg with
      | true => cases hneg rfl
      | false => exact tokenize_word w.isString hrest
  | quoted s =>
      cases neg with
      | true => cases hneg rfl
      | false =>
          have htext : (quoted s).text ++ rest = 34 :: (Quote.double.escape s.text ++ 34 :: rest) := by
            rw [text, Quote.quote, List.cons_append, List.append_assoc]
            rfl
          have hfuel : scan memory (34 :: (Quote.double.escape s.text ++ 34 :: rest)).length rest
              = tokenize memory rest := by
            refine scan_fuel ?_ (Nat.lt_succ_self _)
            rw [List.length_cons, List.length_append, List.length_cons]
            omega
          rw [if_neg Bool.false_ne_true, List.nil_append, htext, ← hfuel]
          exact scan_literal (q := .double) s.nul (.inl s.backslash)
  | number n =>
      rw [text, ← List.append_assoc]
      change tokenize memory (integerText neg n ++ rest) = _
      rw [tokenize_integer neg n hrest, tokens]
      cases integer neg n <;> rfl
  | paren left e right ih =>
      cases neg with
      | true => cases hneg rfl
      | false =>
          have htext : (paren left e right).text ++ rest
              = 40 :: (left.text ++ (e.text ++ (right.text ++ 41 :: rest))) := by
            simp [text]
          have hinner := ih false (fun h => absurd h Bool.false_ne_true) (apart_blanks right (apart_rparen rest))
          rw [if_neg Bool.false_ne_true, List.nil_append] at hinner
          rw [if_neg Bool.false_ne_true, List.nil_append, htext, tokenize_lparen, tokenize_blanks left.blank, hinner,
            tokenize_blanks right.blank, tokenize_rparen, tokens]
          simp only [bind_assoc, pure_bind, List.cons_append, List.append_assoc, List.nil_append]
  | bin l left op right r ihl ihr =>
      have htext : (bin l left op right r).text ++ rest
          = l.text ++ (left.text ++ op.char :: (right.text ++ (r.text ++ rest))) := by
        simp [text]
      have hright : tokenize memory (op.char :: (right.text ++ (r.text ++ rest))) = (do
          let rs ← r.tokens (glued op right r)
          let tokens ← tokenize memory rest
          return (if glued op right r then [] else [op.token]) ++ (rs ++ tokens)) := by
        cases hglued : glued op right r with
        | true =>
            obtain ⟨rfl, hnil, hstart⟩ := of_glued hglued
            have hinner := ihr true (fun _ => hstart) hrest
            rw [hnil]
            exact hinner.trans (by simp)
        | false =>
            have hinner := ihr false (fun h => absurd h Bool.false_ne_true) hrest
            rw [if_neg Bool.false_ne_true, List.nil_append] at hinner
            rw [tokenize_operator hglued, hinner]
            simp
      rw [htext, ihl neg hneg (apart_blanks left (apart_operator op)), tokenize_blanks left.blank, hright, tokens]
      simp only [bind_assoc, pure_bind, List.append_assoc]

theorem tokenize_eq (e : Spaced) : tokenize memory e.text = e.tokens false := by
  have hscan := @tokenize_text memory [] e false nofun nofun
  rw [if_neg Bool.false_ne_true, List.nil_append, List.append_nil] at hscan
  rw [hscan]
  change (do
    let ts ← e.tokens false
    return ts ++ []) = e.tokens false
  simp

theorem sameTokens_iff_tokens (e e' : Spaced) :
    SameTokens e.text e'.text ↔ ∃ ts, e.tokens false = .ok ts ∧ e'.tokens false = .ok ts := by
  unfold SameTokens
  simp only [tokenize_eq, forall_const]

/-! ### Equal tokens -/

theorem tokens_isOk (e : Spaced) (neg : Bool) :
    (∃ ts, e.tokens neg = .ok ts) ↔ ∀ v ∈ e.integers neg, FitsInt64 v := by
  induction e generalizing neg with
  | name w => exact iff_of_true ⟨_, rfl⟩ (List.forall_mem_nil _)
  | quoted s => exact iff_of_true ⟨_, rfl⟩ (List.forall_mem_nil _)
  | number n =>
      rw [tokens, integers, List.forall_mem_singleton, integer]
      by_cases hfits : FitsInt64 (integerOf neg n)
      · rw [if_pos hfits]
        exact iff_of_true ⟨_, rfl⟩ hfits
      · rw [if_neg hfits]
        refine iff_of_false ?_ hfits
        rintro ⟨ts, h⟩
        cases h
  | paren left e right ih =>
      rw [integers, ← ih false, tokens]
      constructor
      · rintro ⟨ts, h⟩
        obtain ⟨inner, hinner, -⟩ := bind_eq_ok.mp h
        exact ⟨inner, hinner⟩
      · rintro ⟨inner, hinner⟩
        exact ⟨_, bind_eq_ok.mpr ⟨inner, hinner, rfl⟩⟩
  | bin l left op right r ihl ihr =>
      rw [integers, List.forall_mem_append, ← ihl, ← ihr, tokens]
      constructor
      · rintro ⟨ts, h⟩
        obtain ⟨ls, hl, h⟩ := bind_eq_ok.mp h
        obtain ⟨rs, hr, -⟩ := bind_eq_ok.mp h
        exact ⟨⟨ls, hl⟩, rs, hr⟩
      · rintro ⟨⟨ls, hl⟩, rs, hr⟩
        exact ⟨_, bind_eq_ok.mpr ⟨ls, hl, bind_eq_ok.mpr ⟨rs, hr, rfl⟩⟩⟩

theorem length_gluedSigns (e : Spaced) : e.gluedSigns.length = e.erase.gluedSigns.length := by
  induction e with
  | paren left e right ih => exact ih
  | bin l left op right r ihl ihr =>
      rw [erase, gluedSigns, gluedSigns, List.length_append, List.length_append, List.length_append,
        List.length_append, ihl, ihr]
      split <;> rfl
  | _ => rfl

/-- Where the same minus signs are glued, the tokens are the same. -/
theorem tokens_congr {e e' : Spaced} (h : e.erase = e'.erase) (hglued : e.gluedSigns = e'.gluedSigns) (neg : Bool) :
    e.tokens neg = e'.tokens neg := by
  induction e generalizing e' neg with
  | name w => cases e' <;> cases h; rfl
  | quoted s => cases e' <;> cases h; rfl
  | number n => cases e' <;> cases h; rfl
  | paren left e right ih =>
      cases e' with
      | paren left' e' right' =>
          rw [tokens, tokens, ih (Spaced.paren.inj h).2.1 hglued false]
      | _ => cases h
  | bin l left op right r ihl ihr =>
      cases e' with
      | bin l' left' op' right' r' =>
          obtain ⟨hl, -, rfl, -, hr⟩ := Spaced.bin.inj h
          have hlength : l.gluedSigns.length = l'.gluedSigns.length := by
            rw [length_gluedSigns, length_gluedSigns l', hl]
          obtain ⟨hleft, hright⟩ := List.append_inj hglued hlength
          obtain ⟨hsign, hright⟩ := List.append_inj hright (by split <;> rfl)
          have hsame : glued op right r = glued op right' r' := by
            by_cases hsub : op = .sub
            · rw [if_pos hsub, if_pos hsub] at hsign
              exact (List.cons.inj hsign).1
            · simp [glued, hsub]
          rw [tokens, tokens, ihl hl hleft neg, hsame, ihr hr hright]
      | _ => cases h

theorem head_tokens_neg {e : Spaced} (h : e.startsWithNumber = true) {ts : List Token} {neg : Bool}
    (hts : e.tokens neg = .ok ts) : ∃ v ts', ts = .vinteger v :: ts' := by
  induction e generalizing ts with
  | number n =>
      obtain ⟨v, -, h⟩ := bind_eq_ok.mp hts
      cases h
      exact ⟨v, [], rfl⟩
  | bin l left op right r ihl ihr =>
      obtain ⟨ls, hl, h'⟩ := bind_eq_ok.mp hts
      obtain ⟨rs, hr, h''⟩ := bind_eq_ok.mp h'
      cases h''
      obtain ⟨v, ls', rfl⟩ := ihl h hl
      exact ⟨v, _, rfl⟩
  | _ => cases h

theorem not_sign {op : Operator} {right right' : Blanks} {r r' : Spaced} {rs s s' : List Token}
    (h : glued op right r = true) (hrs : r.tokens (glued op right r) = .ok rs) (h' : glued op right' r' = false) :
    (if glued op right r then [] else [op.token]) ++ (rs ++ s)
      ≠ (if glued op right' r' then [] else [op.token]) ++ s' := by
  obtain ⟨v, ts, rfl⟩ := head_tokens_neg (of_glued h).2.2 hrs
  rw [h, h', if_pos rfl, if_neg Bool.false_ne_true]
  intro heq
  have hhead := (List.cons.inj heq).1
  cases op <;> cases hhead

theorem gluedSigns_of_tokens {e e' : Spaced} (h : e.erase = e'.erase) {neg neg' : Bool} {ts ts' s s' : List Token}
    (hts : e.tokens neg = .ok ts) (hts' : e'.tokens neg' = .ok ts') (heq : ts ++ s = ts' ++ s') :
    e.gluedSigns = e'.gluedSigns ∧ s = s' := by
  induction e generalizing e' neg neg' ts ts' s s' with
  | name w =>
      cases e' <;> cases h
      cases hts
      cases hts'
      exact ⟨rfl, (List.cons.inj heq).2⟩
  | quoted q =>
      cases e' <;> cases h
      cases hts
      cases hts'
      exact ⟨rfl, (List.cons.inj heq).2⟩
  | number n =>
      cases e' <;> cases h
      obtain ⟨v, -, hv⟩ := bind_eq_ok.mp hts
      obtain ⟨v', -, hv'⟩ := bind_eq_ok.mp hts'
      cases hv
      cases hv'
      exact ⟨rfl, (List.cons.inj heq).2⟩
  | paren left e right ih =>
      cases e' with
      | paren left' e' right' =>
          obtain ⟨inner, hinner, hres⟩ := bind_eq_ok.mp hts
          obtain ⟨inner', hinner', hres'⟩ := bind_eq_ok.mp hts'
          cases hres
          cases hres'
          rw [List.cons_append, List.cons_append, List.append_assoc, List.append_assoc] at heq
          obtain ⟨hsigns, hrest⟩ := ih (Spaced.paren.inj h).2.1 hinner hinner' (List.cons.inj heq).2
          exact ⟨hsigns, (List.cons.inj hrest).2⟩
      | _ => cases h
  | bin l left op right r ihl ihr =>
      cases e' with
      | bin l' left' op' right' r' =>
          obtain ⟨hl, -, rfl, -, hr⟩ := Spaced.bin.inj h
          obtain ⟨ls, hls, hres⟩ := bind_eq_ok.mp hts
          obtain ⟨rs, hrs, hres⟩ := bind_eq_ok.mp hres
          obtain ⟨ls', hls', hres'⟩ := bind_eq_ok.mp hts'
          obtain ⟨rs', hrs', hres'⟩ := bind_eq_ok.mp hres'
          cases hres
          cases hres'
          simp only [List.append_assoc] at heq
          obtain ⟨hleft, heq⟩ := ihl hl hls hls' heq
          have hsame : glued op right r = glued op right' r' := by
            cases hglued : glued op right r with
            | true =>
                cases hglued' : glued op right' r' with
                | true => rfl
                | false => exact absurd heq (not_sign hglued hrs hglued')
            | false =>
                cases hglued' : glued op right' r' with
                | true => exact absurd heq.symm (not_sign hglued' hrs' hglued)
                | false => rfl
          rw [hsame] at heq
          obtain ⟨hright, hrest⟩ := ihr hr hrs hrs' (List.append_cancel_left heq)
          rw [gluedSigns, gluedSigns, hleft, hright, hsame]
          exact ⟨rfl, hrest⟩
      | _ => cases h

/-- **Blanks around operators.** Two ways to write an expression have the same tokens if and only if the same minus
signs stand right in front of a number in both, and the integers that are scanned fit. -/
theorem sameTokens_iff {e e' : Spaced} (h : e.erase = e'.erase) :
    SameTokens e.text e'.text ↔ e.gluedSigns = e'.gluedSigns ∧ ∀ v ∈ e.integers false, FitsInt64 v := by
  rw [sameTokens_iff_tokens, ← tokens_isOk]
  constructor
  · rintro ⟨ts, hts, hts'⟩
    exact ⟨(gluedSigns_of_tokens h hts hts' (rfl : ts ++ [] = ts ++ [])).1, ts, hts⟩
  · rintro ⟨hglued, ts, hts⟩
    exact ⟨ts, hts, tokens_congr h hglued false ▸ hts⟩

/-- A name of one letter. -/
def letter (c : UInt8) (h : ALPHA c = true) : Spaced := name ⟨[c], matches_STRING.mpr ⟨h, nofun⟩⟩

def oneSpace : Blanks := ⟨[32], List.forall_mem_singleton.mpr (.inl rfl)⟩

/-- `a-b*2` and `a - b* 2`. -/
theorem sameTokens_names :
    SameTokens (ascii "a-b*2") (ascii "a - b* 2") := by
  have hsame := (@sameTokens_iff
    (bin (letter 97 rfl) .none .sub .none (bin (letter 98 rfl) .none .mul .none (number 2)))
    (bin (letter 97 rfl) oneSpace .sub oneSpace (bin (letter 98 rfl) .none .mul oneSpace (number 2))) rfl).mpr
    ⟨by decide, by decide⟩
  exact hsame

/-- `a -1` is the name and the integer `-1`, and `a - 1` has the operator between the name and the integer `1`. -/
theorem sign_not_sameTokens :
    ∃ e e' : Spaced, e.text = ascii "a -1" ∧ e'.text = ascii "a - 1" ∧ e.erase = e'.erase
      ∧ tokenize (fun _ _ => 0) (ascii "a -1") = .ok [.id [97], .vinteger (-1)]
      ∧ tokenize (fun _ _ => 0) (ascii "a - 1") = .ok [.id [97], .additive .sub, .vinteger 1]
      ∧ ¬ SameTokens e.text e'.text := by
  have hglued : tokenize (fun _ _ => 0) (ascii "a -1") = .ok [.id [97], .vinteger (-1)] := by rfl
  have hapart : tokenize (fun _ _ => 0) (ascii "a - 1") = .ok [.id [97], .additive .sub, .vinteger 1] := by rfl
  refine ⟨bin (letter 97 rfl) oneSpace .sub .none (number 1), bin (letter 97 rfl) oneSpace .sub oneSpace (number 1),
    rfl, rfl, rfl, hglued, hapart, ?_⟩
  rintro ⟨ts, hts⟩
  obtain ⟨h, h'⟩ := hts fun _ _ => 0
  cases hglued.symm.trans h
  cases hapart.symm.trans h'

end Spaced

end Scroller.Hquery

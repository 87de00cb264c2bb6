import Scroller.Scanner

/-!
# String literals in queries

A quoted string is scanned back to its value where the longest match of its pattern ends at its own closing quote.
A backslash in front of that quote is taken for the start of an escape: the match goes on to the next quote of
the text, if there is one.
-/

namespace Scroller.Hquery

open Regex

/-- The two kinds of quotes. -/
inductive Quote where
  | single
  | double
deriving DecidableEq, Repr

namespace Quote

def char : Quote → UInt8
  | single => 39
  | double => 34

/-- The token of a quoted string. -/
def token : Quote → List UInt8 → Token
  | single => .string
  | double => .id

/-- The index of its rule. -/
def idx : Quote → Nat
  | single => 52
  | double => 51

/-- The characters of a string with a backslash in front of every quote and every backslash. -/
def escape (q : Quote) (s : List UInt8) : List UInt8 :=
  s.flatMap fun c => if c = q.char ∨ c = 92 then [92, c] else [c]

/-- A string literal. -/
def quote (q : Quote) (s : List UInt8) : List UInt8 := q.char :: (q.escape s ++ [q.char])

variable {q : Quote}

theorem char_ne_backslash : q.char ≠ 92 := by cases q <;> decide

theorem escape_cons (c : UInt8) (s : List UInt8) :
    q.escape (c :: s) = (if c = q.char ∨ c = 92 then [92, c] else [c]) ++ q.escape s := rfl

/-! ### The pattern of quoted strings -/

/-- Every quote in a text has a backslash right in front of it; `b` says that one stands in front of the text. -/
def guarded (q : UInt8) : Bool → List UInt8 → Bool
  | _, [] => true
  | b, c :: w => (c ≠ q || b) && guarded q (c = 92) w

theorem guarded_of_guarded_false {q : UInt8} {b : Bool} {w : List UInt8}
    (h : guarded q false w = true) : guarded q b w = true := by
  cases w with
  | nil => rfl
  | cons c w =>
      rw [guarded, Bool.or_false, Bool.and_eq_true] at h
      rw [guarded, h.1, h.2]
      rfl

/-- What stands between the quotes. -/
def inside (q : UInt8) : Regex UInt8 :=
  .star (.alt (.seq (.cls (· = 92)) (.cls anyChar)) (.cls (· ≠ q)))

theorem guarded_of_matches {q : UInt8} (hq : q ≠ 92) {w : List UInt8}
    (h : (inside q).Matches w) : guarded q false w = true := by
  obtain ⟨r, hr⟩ : ∃ r, r = inside q := ⟨_, rfl⟩
  rw [← hr] at h
  induction h with
  | done => rfl
  | @more r u v hu hv _ ih =>
      cases hr
      have hrest := ih rfl
      rcases matches_alt.mp hu with hpair | hsingle
      · obtain ⟨_, _, rfl, hlead, hchar⟩ := matches_seq.mp hpair
        obtain ⟨a, rfl, ha⟩ := matches_cls.mp hlead
        obtain ⟨c, rfl, -⟩ := matches_cls.mp hchar
        have ha' : a = 92 := of_decide_eq_true ha
        have hne : ¬ (92 : UInt8) = q := fun heq => hq heq.symm
        subst ha'
        simp [guarded, guarded_of_guarded_false hrest, hne]
      · obtain ⟨c, rfl, hc⟩ := matches_cls.mp hsingle
        have hc' : c ≠ q := of_decide_eq_true hc
        simp [guarded, guarded_of_guarded_false hrest, hc']
  | _ => cases hr

theorem matches_inside_char {q c : UInt8} (hc : c ≠ q) {w : List UInt8} (h : (inside q).Matches w) :
    (inside q).Matches (c :: w) := by
  have hone : Matches (.alt (.seq (.cls (· = 92)) (.cls anyChar)) (.cls (· ≠ q))) [c] :=
    .right (.cls (decide_eq_true hc))
  exact .more hone h

theorem matches_inside_pair {q : UInt8} (hq : q ≠ 10) {w : List UInt8} (h : (inside q).Matches w) :
    (inside q).Matches (92 :: q :: w) := by
  have hpair : Matches (.alt (.seq (.cls (· = 92)) (.cls anyChar)) (.cls (· ≠ q))) ([92] ++ [q]) :=
    .left (.seq (.cls rfl) (.cls (decide_eq_true hq)))
  exact .more hpair h

theorem matches_of_guarded {q : UInt8} (hq : q ≠ 92) (hnewline : q ≠ 10) (w : List UInt8)
    (h : guarded q false w = true) : (inside q).Matches w := by
  induction hn : w.length using Nat.strong_induction_on generalizing w with
  | _ n ih =>
      subst hn
      cases w with
      | nil => exact .done
      | cons c w =>
          rw [guarded, Bool.or_false, Bool.and_eq_true] at h
          have hc : c ≠ q := of_decide_eq_true h.1
          by_cases hback : c = 92
          · subst hback
            cases w with
            | nil => exact matches_inside_char hc .done
            | cons d w =>
                have hrest : guarded q (d = 92) w = true := by
                  have hpair := h.2
                  rw [guarded, Bool.and_eq_true] at hpair
                  exact hpair.2
                by_cases hd : d = q
                · subst hd
                  rw [decide_eq_false hq] at hrest
                  exact matches_inside_pair hnewline
                    (ih w.length (Nat.lt_succ_of_lt (Nat.lt_succ_self _)) w hrest rfl)
                · refine matches_inside_char hc (ih (d :: w).length (Nat.lt_succ_self _) _ ?_ rfl)
                  rw [guarded, hrest, decide_eq_true hd]
                  rfl
          · have hrest := h.2
            rw [decide_eq_false hback] at hrest
            exact matches_inside_char hc (ih w.length (Nat.lt_succ_self _) w hrest rfl)

/-- The pattern of quoted strings: a text between two quotes in which every quote has a backslash right in
front of it. -/
theorem matches_quoted {t : List UInt8} :
    (quoted q.char).Matches t ↔
      ∃ w, t = q.char :: (w ++ [q.char]) ∧ guarded q.char false w = true := by
  have hnewline : q.char ≠ 10 := by cases q <;> decide
  constructor
  · intro h
    obtain ⟨_, _, rfl, hopen, hrest⟩ := matches_seq.mp h
    obtain ⟨w, _, rfl, hinside, hclose⟩ := matches_seq.mp hrest
    obtain ⟨a, rfl, ha⟩ := matches_cls.mp hopen
    obtain ⟨b, rfl, hb⟩ := matches_cls.mp hclose
    have ha' : a = q.char := of_decide_eq_true ha
    have hb' : b = q.char := of_decide_eq_true hb
    subst ha' hb'
    exact ⟨w, rfl, guarded_of_matches char_ne_backslash hinside⟩
  · rintro ⟨w, rfl, hguarded⟩
    have hclose : Matches (.cls (· = q.char)) [q.char] := .cls (decide_eq_true rfl)
    exact .seq (u := [q.char]) hclose
      (.seq (matches_of_guarded char_ne_backslash hnewline w hguarded) hclose)

/-! ### Quotes in a text -/

/-- A backslash stands behind `w`, or in front of it where it is empty. -/
def ends (b : Bool) (w : List UInt8) : Bool :=
  match w.getLast? with
  | none => b
  | some c => c = 92

theorem guarded_append (q : UInt8) (b : Bool) (u v : List UInt8) :
    guarded q b (u ++ v) = (guarded q b u && guarded q (ends b u) v) := by
  induction u generalizing b with
  | nil => rfl
  | cons c u ih =>
      have hends : ends b (c :: u) = ends (c = 92) u := by
        cases u with
        | nil => rfl
        | cons d u => rw [ends, ends, List.getLast?_cons_cons]; rfl
      rw [List.cons_append, guarded, guarded, ih, hends, Bool.and_assoc]

theorem guarded_escape (b : Bool) (s : List UInt8) : guarded q.char b (q.escape s) = true := by
  induction s generalizing b with
  | nil => rfl
  | cons c s ih =>
      rw [escape_cons]
      by_cases hc : c = q.char ∨ c = 92
      · have hne : ¬ (92 : UInt8) = q.char := fun h => char_ne_backslash h.symm
        rw [if_pos hc]
        simp [guarded, ih, hne]
      · rw [if_neg hc]
        simp [guarded, ih, not_or.mp hc]

theorem getLast?_escape (s : List UInt8) : (q.escape s).getLast? = s.getLast? := by
  rcases List.eq_nil_or_concat' s with rfl | ⟨s, c, rfl⟩
  · rfl
  · have happend : q.escape (s ++ [c]) = q.escape s ++ (if c = q.char ∨ c = 92 then [92, c] else [c]) := by
      rw [escape, escape, List.flatMap_append, List.flatMap_singleton]
    rw [happend, List.getLast?_concat]
    split
    · rw [List.getLast?_append]
      rfl
    · rw [List.getLast?_append]
      rfl

theorem ends_escape (s : List UInt8) : ends false (q.escape s) = true ↔ s.getLast? = some 92 := by
  rw [ends, getLast?_escape]
  cases s.getLast? with
  | none => exact iff_of_false Bool.false_ne_true nofun
  | some c => rw [decide_eq_true_iff, Option.some.injEq]

/-! ### The longest match at a quote -/

theorem patterns_idx : patterns[q.idx]? = some (quoted q.char) := by cases q <;> rfl

/-- Behind a quote the other rules have nothing left to match. -/
theorem stuck_behind_quote {j : Nat} (hj : j ≠ q.idx) {r : Regex UInt8} (hr : patterns[j]? = some r) :
    (deriv q.char r).stuck = true := by
  have hall : ∀ q : Quote, ∀ j < patterns.length, j ≠ q.idx →
      (patterns[j]?.all fun r => (deriv q.char r).stuck) = true := by
    intro q
    cases q <;> decide
  have hstuck := hall q j (List.getElem?_eq_some_iff.mp hr).1 hj
  rwa [hr] at hstuck

theorem isLongest_quoted {w rest : List UInt8} (hguarded : guarded q.char false w = true)
    (hend : ends false w = false ∨ q.char ∉ rest) :
    IsLongest patterns (q.char :: (w ++ q.char :: rest)) q.idx (w.length + 2) := by
  have htake : ∀ k, (q.char :: (w ++ q.char :: rest)).take (w.length + 2 + k)
      = q.char :: (w ++ q.char :: rest.take k) := by
    intro k
    have hlen : w.length + 2 + k = w.length + (k + 1) + 1 := by omega
    rw [hlen, List.take_succ_cons, List.take_length_add_append, List.take_succ_cons]
  have hother : ∀ k j r, j ≠ q.idx → patterns[j]? = some r →
      ¬ r.Matches ((q.char :: (w ++ q.char :: rest)).take (w.length + 2 + k)) := by
    intro k j r hj hr hmatch
    rw [htake] at hmatch
    have hnil := eq_nil_of_stuck (stuck_behind_quote hj hr) (deriv_iff.mpr hmatch)
    exact List.cons_ne_nil _ _ (List.append_eq_nil_iff.mp hnil).2
  constructor
  · exact Nat.succ_pos _
  · rw [List.length_cons, List.length_append, List.length_cons]
    omega
  · refine ⟨_, patterns_idx, matches_quoted.mpr ⟨w, ?_, hguarded⟩⟩
    exact htake 0
  · intro j hj r hr
    exact hother 0 j r (Nat.ne_of_lt hj) hr
  · intro m hm hle r hr hmatch
    obtain ⟨k, rfl⟩ := Nat.exists_eq_add_of_lt hm
    obtain ⟨j, hj⟩ := List.mem_iff_getElem?.mp hr
    by_cases hidx : j = q.idx
    · subst hidx
      rw [patterns_idx] at hj
      cases hj
      obtain ⟨w', hw', hguarded'⟩ := matches_quoted.mp hmatch
      rw [show w.length + 2 + k + 1 = w.length + 2 + (k + 1) from rfl, htake] at hw'
      have hrest : rest.take (k + 1) ≠ [] := by
        intro hnil
        rw [List.length_cons, List.length_append, List.length_cons] at hle
        rcases List.take_eq_nil_iff.mp hnil with h | rfl
        · exact Nat.succ_ne_zero k h
        · rw [List.length_nil] at hle
          omega
      obtain ⟨v, c, hv⟩ := (List.eq_nil_or_concat' _).resolve_left hrest
      have hsplit : w ++ q.char :: (v ++ [c]) = w ++ q.char :: v ++ [c] := by
        rw [List.append_assoc, List.cons_append]
      rw [hv, hsplit] at hw'
      obtain ⟨hw, hc⟩ := List.append_inj' (List.cons.inj hw').2 rfl
      rw [List.cons.injEq] at hc
      rw [← hw, guarded_append, guarded, Bool.and_eq_true, Bool.and_eq_true] at hguarded'
      have hback := hguarded'.2.1
      rcases hend with hend | hend
      · rw [hend] at hback
        simp at hback
      · apply hend
        apply List.mem_of_mem_take (i := k + 1)
        rw [hv, ← hc.1]
        exact List.mem_append_right _ List.mem_cons_self
    · exact hother (k + 1) j r hidx hj hmatch

/-! ### The value of a literal -/

theorem strUnescapeLoop_escape (memory : Nat → UInt8) {s : List UInt8} (hnul : (0 : UInt8) ∉ s) (d : Nat)
    (rest : List UInt8) :
    strUnescapeLoop memory q.char d (q.escape s ++ q.char :: rest) = .ok s := by
  induction s generalizing d with
  | nil =>
      show strUnescapeLoop memory q.char d (q.char :: rest) = _
      unfold strUnescapeLoop
      rw [if_pos (Or.inr rfl)]
      rfl
  | cons c s ih =>
      obtain ⟨hc, hs⟩ := not_or.mp (mt List.mem_cons.mpr hnul)
      have hc0 : ¬ c = 0 := fun h => hc h.symm
      rw [escape_cons]
      by_cases hquote : c = q.char ∨ c = 92
      · have hback : ¬ ((92 : UInt8) = 0 ∨ (92 : UInt8) = q.char) := by cases q <;> decide
        rw [if_pos hquote]
        show strUnescapeLoop memory q.char d (92 :: c :: (q.escape s ++ q.char :: rest)) = _
        unfold strUnescapeLoop
        rw [if_neg hback, if_pos rfl]
        simp only [ih hs, bind, Except.bind]
        rcases hquote with rfl | rfl
        · rw [if_pos rfl]
          rfl
        · rw [if_neg (fun h => char_ne_backslash h.symm), if_pos (Or.inr (Or.inr rfl))]
          rfl
      · obtain ⟨hq, hback⟩ := not_or.mp hquote
        rw [if_neg hquote]
        show strUnescapeLoop memory q.char d (c :: (q.escape s ++ q.char :: rest)) = _
        unfold strUnescapeLoop
        rw [if_neg (not_or.mpr ⟨hc0, hq⟩), if_neg hback]
        simp only [ih hs, bind, Except.bind]
        rfl

theorem terminated_eq {s : List UInt8} (hnul : (0 : UInt8) ∉ s) : terminated s = s := by
  rw [terminated, List.takeWhile_eq_self_iff]
  intro c hc
  exact decide_eq_true fun h => hnul (h ▸ hc)

theorem strUnescape_escape (memory : Nat → UInt8) {s : List UInt8} (hnul : (0 : UInt8) ∉ s)
    (rest : List UInt8) :
    strUnescape memory (q.char :: (q.escape s ++ q.char :: rest)) q.char = .ok s := by
  rw [strUnescape, List.tail_cons, strUnescapeLoop_escape memory hnul]
  simp only [bind, Except.bind, terminated_eq hnul]
  rfl

/-! ### Scanning -/

/-- The rule of quoted strings. -/
def rule (q : Quote) : Rule :=
  ⟨quoted q.char, fun memory yytext => do
    let str ← strUnescape memory yytext q.char
    return some (q.token str)⟩

theorem rules_idx : rules[q.idx]? = some q.rule := by cases q <;> rfl

end Quote

section Scanning

variable {memory : Nat → Nat → UInt8} {fuel : Nat}

theorem scan_step {s : List UInt8} {i n : Nat} {rule : Rule} (h : IsLongest patterns s i n)
    (hrule : rules[i]? = some rule) :
    scan memory (fuel + 1) s = (do
      let token ← rule.action (memory s.length) (s.take n)
      let tokens ← scan memory fuel (s.drop n)
      return token.toList ++ tokens) := by
  rw [scan, longest_eq_some_iff.mpr h]
  simp only [hrule]

theorem scan_comma (s : List UInt8) :
    scan memory (fuel + 1) (44 :: s) = (do
      let tokens ← scan memory fuel s
      return .comma :: tokens) := by
  have hstuck : (patterns.map (deriv 44)).all stuck = true := by decide
  have hfirst : (patterns.map (deriv 44)).findIdx? nullable = some 41 := by decide
  exact scan_step (IsLongest.one (misses_of_stuck hstuck) hfirst) rfl

theorem scan_space (q : Quote) (s : List UInt8) :
    scan memory (fuel + 1) (32 :: q.char :: s) = scan memory fuel (q.char :: s) := by
  have hmisses : Misses (patterns.map (deriv 32)) (q.char :: s) := by
    refine Misses.cons ?_ (misses_of_stuck ?_)
    · intro r hr hmatch
      have hnull : ((patterns.map (deriv 32)).any fun r => (deriv q.char r).nullable) = false := by
        cases q <;> decide
      have hnot := List.any_eq_false.mp hnull r hr
      exact hnot (nullable_iff.mpr (deriv_iff.mpr hmatch))
    · cases q <;> decide
  have hfirst : (patterns.map (deriv 32)).findIdx? nullable = some 0 := by decide
  have hstep := @scan_step memory fuel _ 0 1 (eat (plus SPACE)) (IsLongest.one hmisses hfirst) rfl
  rw [hstep]
  simp only [eat, bind, Except.bind, pure, Except.pure, List.take_succ_cons, List.drop_succ_cons,
    List.drop_zero, Option.toList_none, List.nil_append]
  cases scan memory fuel (q.char :: s) <;> rfl

theorem scan_quoted (q : Quote) {w rest : List UInt8} (hguarded : Quote.guarded q.char false w = true)
    (hend : Quote.ends false w = false ∨ q.char ∉ rest) :
    scan memory (fuel + 1) (q.char :: (w ++ q.char :: rest)) = (do
      let str ← strUnescape (memory (w.length + rest.length + 2)) (q.char :: (w ++ [q.char])) q.char
      let tokens ← scan memory fuel rest
      return q.token str :: tokens) := by
  have htake : (q.char :: (w ++ q.char :: rest)).take (w.length + 2) = q.char :: (w ++ [q.char]) := by
    rw [List.take_succ_cons, List.take_length_add_append]
    rfl
  have hdrop : (q.char :: (w ++ q.char :: rest)).drop (w.length + 2) = rest := by
    rw [List.drop_succ_cons, List.drop_length_add_append]
    rfl
  have hlen : (q.char :: (w ++ q.char :: rest)).length = w.length + rest.length + 2 := by
    rw [List.length_cons, List.length_append, List.length_cons]
    omega
  rw [scan_step (Quote.isLongest_quoted hguarded hend) Quote.rules_idx, htake, hdrop, hlen, Quote.rule]
  simp only [bind, Except.bind]
  cases strUnescape (memory (w.length + rest.length + 2)) (q.char :: (w ++ [q.char])) q.char <;> rfl

end Scanning

/-! ### Commas

No token takes more commas than its text has. A text that is scanned to what it should be has no comma to
spare, so that no comma of it may get lost in a literal. -/

def commas (w : List UInt8) : Nat := w.count 44

/-- The commas that the text of a token has at least. -/
def Token.commas : Token → Nat
  | .comma => 1
  | .string str | .id str => Hquery.commas str
  | _ => 0

theorem commas_cons_le (c : UInt8) (w : List UInt8) : commas w ≤ commas (c :: w) :=
  (List.sublist_cons_self c w).count_le 44

theorem commas_append (u v : List UInt8) : commas (u ++ v) = commas u + commas v :=
  List.count_append

theorem map_lower_of_matches {w u : List UInt8} (h : (word w).Matches u) : u.map lower = w := by
  induction w generalizing u with
  | nil =>
      cases matches_eps.mp h
      rfl
  | cons k ks ih =>
      obtain ⟨_, v, rfl, hfirst, hrest⟩ := matches_seq.mp h
      obtain ⟨a, rfl, ha⟩ := matches_cls.mp hfirst
      have hlower : lower a = k := of_decide_eq_true ha
      rw [List.singleton_append, List.map_cons, hlower, ih hrest]

theorem lower_eq_comma (c : UInt8) : lower c = 44 ↔ c = 44 := by
  rw [lower]
  split
  · rename_i hupper
    obtain ⟨hle, hge⟩ := hupper
    rw [UInt8.le_iff_toNat_le] at hle hge
    rw [← UInt8.toNat_inj, ← UInt8.toNat_inj, UInt8.toNat_add]
    change 65 ≤ c.toNat at hle
    change c.toNat ≤ 90 at hge
    show (c.toNat + 32) % 2 ^ 8 = 44 ↔ c.toNat = 44
    omega
  · exact Iff.rfl

theorem commas_map_lower (u : List UInt8) : commas (u.map lower) = commas u := by
  rw [commas, commas, List.count, List.countP_map]
  congr 1
  funext c
  exact Bool.eq_iff_iff.mpr (by simp [lower_eq_comma])

/-- Over zeroed memory a literal has no commas but those of its text. -/
theorem commas_strUnescapeLoop (q : Quote) {d : Nat} {s str : List UInt8}
    (h : strUnescapeLoop (fun _ => 0) q.char d s = .ok str) : commas str ≤ commas s := by
  induction hn : s.length using Nat.strong_induction_on generalizing s d str with
  | _ n ih =>
      subst hn
      unfold strUnescapeLoop at h
      split at h
      · cases h
        exact Nat.le_refl _
      · rename_i c s
        split at h
        · cases h
          exact Nat.zero_le _
        · split at h
          · split at h
            · cases h
            · rename_i e s
              obtain ⟨rest, hrest, h⟩ := bind_eq_ok.mp h
              have hle := ih s.length (Nat.lt_succ_of_lt (Nat.lt_succ_self _)) hrest rfl
              have hfront : commas s ≤ commas (c :: e :: s) :=
                (commas_cons_le e s).trans (commas_cons_le c _)
              have hskip : ∀ b : UInt8, b ≠ 44 → commas (b :: rest) = commas rest := fun b hb =>
                List.count_cons_of_ne hb
              split at h
              · cases h
                rw [hskip _ (by cases q <;> decide)]
                exact hle.trans hfront
              · split at h
                · rename_i he
                  cases h
                  rw [hskip e (by rintro rfl; revert he; decide)]
                  exact hle.trans hfront
                · cases h
                  rw [hskip 0 (by decide)]
                  exact hle.trans hfront
          · obtain ⟨rest, hrest, h⟩ := bind_eq_ok.mp h
            cases h
            have hle := ih s.length (Nat.lt_succ_self _) hrest rfl
            rw [commas, commas, List.count_cons, List.count_cons]
            exact Nat.add_le_add_right hle _

theorem commas_strUnescape (q : Quote) {s str : List UInt8}
    (h : strUnescape (fun _ => 0) s q.char = .ok str) : commas str ≤ commas s := by
  obtain ⟨str', hloop, h⟩ := bind_eq_ok.mp h
  cases h
  calc commas (terminated str') ≤ commas str' := (List.takeWhile_sublist _).count_le 44
    _ ≤ commas s.tail := commas_strUnescapeLoop q hloop
    _ ≤ commas s := (List.tail_sublist s).count_le 44

theorem wordRule_commas {w : List UInt8 × Token} (hw : w.2.commas ≤ commas w.1) {u : List UInt8}
    (hmatch : (wordRule w).pattern.Matches u) {token : Token}
    (h : (wordRule w).action (fun _ => 0) u = .ok (some token)) : token.commas ≤ commas u := by
  cases h
  rw [← commas_map_lower u, map_lower_of_matches hmatch]
  exact hw

theorem action_commas {rule : Rule} (hrule : rule ∈ rules) {u : List UInt8}
    (hmatch : rule.pattern.Matches u) {token : Token}
    (h : rule.action (fun _ => 0) u = .ok (some token)) : token.commas ≤ commas u := by
  rcases List.mem_append.mp hrule with hrule | hrule
  · rcases List.mem_append.mp hrule with hrule | hrule
    · simp only [firstRules, List.mem_cons, List.not_mem_nil, or_false] at hrule
      rcases hrule with rfl | rfl <;> cases h
    · obtain ⟨w, hw, rfl⟩ := List.mem_map.mp hrule
      have hall : ∀ w ∈ words, w.2.commas ≤ commas w.1 := by decide
      exact wordRule_commas (hall w hw) hmatch h
  · simp only [lastRules, List.mem_cons, List.not_mem_nil, or_false] at hrule
    rcases hrule with rfl | rfl | rfl | rfl | rfl | rfl | rfl | rfl
    · obtain ⟨integer, -, h⟩ := bind_eq_ok.mp h
      cases h
      exact Nat.zero_le _
    · cases h
      exact Nat.le_refl _
    · obtain ⟨str, hstr, h⟩ := bind_eq_ok.mp h
      cases h
      exact commas_strUnescape .double hstr
    · obtain ⟨str, hstr, h⟩ := bind_eq_ok.mp h
      cases h
      exact commas_strUnescape .single hstr
    · exact wordRule_commas (Nat.zero_le _) hmatch h
    · exact wordRule_commas (Nat.zero_le _) hmatch h
    · cases h
    · cases h

theorem scan_commas {fuel : Nat} {s : List UInt8} {tokens : List Token}
    (h : scan (fun _ _ => 0) fuel s = .ok tokens) : (tokens.map Token.commas).sum ≤ commas s := by
  induction fuel generalizing s tokens with
  | zero => cases h
  | succ fuel ih =>
      rw [scan] at h
      split at h
      · cases h
        exact Nat.zero_le _
      · rename_i i n hlongest
        split at h
        · cases h
        · rename_i rule hrule
          obtain ⟨token, haction, h⟩ := bind_eq_ok.mp h
          obtain ⟨tokens, hrest, h⟩ := bind_eq_ok.mp h
          cases h
          obtain ⟨r, hr, hmatch⟩ := (longest_isLongest hlongest).hit
          rw [patterns, List.getElem?_map, hrule, Option.map_some, Option.some.injEq] at hr
          subst hr
          have htoken : (token.toList.map Token.commas).sum ≤ commas (s.take n) := by
            cases token with
            | none => exact Nat.zero_le _
            | some token =>
                rw [Option.toList_some, List.map_singleton, List.sum_singleton]
                exact action_commas (List.mem_of_getElem? hrule) hmatch haction
          calc ((token.toList ++ tokens).map Token.commas).sum
              = (token.toList.map Token.commas).sum + (tokens.map Token.commas).sum := by
                rw [List.map_append, List.sum_append]
            _ ≤ commas (s.take n) + commas (s.drop n) := Nat.add_le_add htoken (ih hrest)
            _ = commas s := by rw [← commas_append, List.take_append_drop]

/-! ### Literals one after the other -/

section Literals

variable {q : Quote}

/-- The literals of some strings. -/
def text (q : Quote) (strs : List (List UInt8)) : List UInt8 :=
  (ascii ", ").intercalate (strs.map q.quote)

/-- The tokens of the literals. -/
def tokens (q : Quote) (strs : List (List UInt8)) : List Token :=
  (strs.map q.token).intersperse .comma

/-- The literals are scanned back to the strings. -/
def ScansBack (q : Quote) (strs : List (List UInt8)) : Prop :=
  ∀ memory, tokenize memory (text q strs) = .ok (tokens q strs)

theorem text_cons (s s' : List UInt8) (strs : List (List UInt8)) :
    text q (s :: s' :: strs)
      = q.char :: (q.escape s ++ q.char :: (44 :: 32 :: text q (s' :: strs))) := by
  show q.quote s ++ (ascii ", " ++ text q (s' :: strs)) = _
  rw [Quote.quote, List.cons_append, List.append_assoc]
  rfl

theorem tokens_cons (s s' : List UInt8) (strs : List (List UInt8)) :
    tokens q (s :: s' :: strs) = q.token s :: .comma :: tokens q (s' :: strs) := rfl

theorem exists_text_eq (s : List UInt8) (strs : List (List UInt8)) :
    ∃ rest, text q (s :: strs) = q.char :: rest := by
  cases strs with
  | nil => exact ⟨_, List.append_nil _⟩
  | cons s' strs => exact ⟨_, text_cons s s' strs⟩

theorem commas_token (s : List UInt8) : (q.token s).commas = commas s := by cases q <;> rfl

theorem commas_escape (s : List UInt8) : commas (q.escape s) = commas s := by
  induction s with
  | nil => rfl
  | cons c s ih =>
      have hone : commas (if c = q.char ∨ c = 92 then [92, c] else [c]) = commas [c] := by
        split
        · exact List.count_cons_of_ne (by decide)
        · rfl
      rw [Quote.escape_cons, commas_append, hone, ih, ← commas_append, List.singleton_append]

theorem commas_char_cons (w : List UInt8) : commas (q.char :: w) = commas w :=
  List.count_cons_of_ne (by cases q <;> decide)

theorem text_singleton (s : List UInt8) : text q [s] = q.char :: (q.escape s ++ q.char :: []) :=
  List.append_nil _

theorem commas_text (strs : List (List UInt8)) :
    commas (text q strs) = ((tokens q strs).map Token.commas).sum := by
  induction strs with
  | nil => rfl
  | cons s strs ih =>
      cases strs with
      | nil =>
          rw [text_singleton, commas_char_cons, commas_append, commas_char_cons, commas_escape]
          show commas s + 0 = (q.token s).commas + 0
          rw [commas_token]
      | cons s' strs =>
          have hcomma : ∀ w, commas (44 :: 32 :: w) = 1 + commas w := by
            intro w
            rw [commas, List.count_cons_self, List.count_cons_of_ne (by decide), Nat.add_comm]
            rfl
          rw [text_cons, commas_char_cons, commas_append, commas_char_cons, commas_escape, hcomma, ih,
            tokens_cons, List.map_cons, List.map_cons, List.sum_cons, List.sum_cons, commas_token]
          rfl

/-- A literal without a backslash at its end, or at the end of the text. -/
theorem scan_literal {memory : Nat → Nat → UInt8} {fuel : Nat} {s rest : List UInt8}
    (hnul : (0 : UInt8) ∉ s) (hend : s.getLast? ≠ some 92 ∨ q.char ∉ rest) :
    scan memory (fuel + 1) (q.char :: (q.escape s ++ q.char :: rest)) = (do
      let tokens ← scan memory fuel rest
      return q.token s :: tokens) := by
  have hends : Quote.ends false (q.escape s) = false ∨ q.char ∉ rest :=
    hend.imp_left fun h => Bool.eq_false_iff.mpr fun hback => h (q.ends_escape s |>.mp hback)
  rw [scan_quoted q (Quote.guarded_escape false s) hends, Quote.strUnescape_escape _ hnul]
  rfl

theorem scan_separator {memory : Nat → Nat → UInt8} {fuel : Nat} (s : List UInt8)
    (strs : List (List UInt8)) :
    scan memory (fuel + 2) (44 :: 32 :: text q (s :: strs)) = (do
      let tokens ← scan memory fuel (text q (s :: strs))
      return .comma :: tokens) := by
  obtain ⟨rest, hrest⟩ := @exists_text_eq q s strs
  rw [scan_comma, hrest, scan_space]

theorem scan_text {memory : Nat → Nat → UInt8} {strs : List (List UInt8)}
    (hnul : ∀ s ∈ strs, (0 : UInt8) ∉ s) (hends : ∀ s ∈ strs.dropLast, s.getLast? ≠ some 92)
    {fuel : Nat} (hfuel : (text q strs).length < fuel) :
    scan memory fuel (text q strs) = .ok (tokens q strs) := by
  induction strs generalizing fuel with
  | nil =>
      obtain ⟨fuel, rfl⟩ := Nat.exists_eq_succ_of_ne_zero (Nat.ne_zero_of_lt hfuel)
      rfl
  | cons s strs ih =>
      cases strs with
      | nil =>
          rw [text_singleton, List.length_cons, List.length_append] at hfuel
          obtain ⟨fuel, rfl⟩ := Nat.exists_eq_add_of_lt (show 1 < fuel by omega)
          rw [text_singleton, show 1 + fuel + 1 = fuel + 1 + 1 by omega,
            scan_literal (hnul s List.mem_cons_self) (Or.inr List.not_mem_nil)]
          rfl
      | cons s' strs =>
          rw [text_cons, List.length_cons, List.length_append, List.length_cons, List.length_cons,
            List.length_cons] at hfuel
          obtain ⟨fuel, rfl⟩ := Nat.exists_eq_add_of_lt (show 2 < fuel by omega)
          have hrest := @ih (fun s hs => hnul s (List.mem_cons_of_mem _ hs))
            (fun s hs => hends s (List.mem_cons_of_mem _ hs)) fuel (by omega)
          rw [text_cons, show 2 + fuel + 1 = fuel + 2 + 1 by omega,
            scan_literal (hnul s List.mem_cons_self) (Or.inl (hends s List.mem_cons_self)),
            scan_separator, hrest]
          rfl

/-- The match that starts at a literal with a backslash at its end goes on to the next literal, so that the comma
between them is lost. -/
theorem scan_backslash {fuel : Nat} {s s' : List UInt8} {strs : List (List UInt8)}
    (hback : s.getLast? = some 92) {t : List Token}
    (h : scan (fun _ _ => 0) (fuel + 1) (text q (s :: s' :: strs)) = .ok t) :
    (t.tail.map Token.commas).sum ≤ commas (text q (s' :: strs)) := by
  obtain ⟨rest, hrest⟩ := @exists_text_eq q s' strs
  have hguarded : Quote.guarded q.char false (q.escape s ++ [q.char, 44, 32]) = true := by
    rw [Quote.guarded_append, Quote.guarded_escape, q.ends_escape s |>.mpr hback]
    cases q <;> rfl
  have hend : Quote.ends false (q.escape s ++ [q.char, 44, 32]) = false := by
    rw [Quote.ends, List.getLast?_append]
    rfl
  have htext : text q (s :: s' :: strs)
      = q.char :: (q.escape s ++ [q.char, 44, 32] ++ q.char :: rest) := by
    rw [text_cons, hrest, List.append_assoc]
    rfl
  rw [htext, scan_quoted q hguarded (Or.inl hend)] at h
  obtain ⟨str, -, h⟩ := bind_eq_ok.mp h
  obtain ⟨tokens, hscan, h⟩ := bind_eq_ok.mp h
  cases h
  rw [hrest, commas_char_cons]
  exact scan_commas hscan

theorem not_backslash_of_scan {strs : List (List UInt8)} (hnul : ∀ s ∈ strs, (0 : UInt8) ∉ s)
    {fuel : Nat} (h : scan (fun _ _ => 0) fuel (text q strs) = .ok (tokens q strs)) :
    ∀ s ∈ strs.dropLast, s.getLast? ≠ some 92 := by
  induction strs generalizing fuel with
  | nil => exact fun s hs => nomatch hs
  | cons s strs ih =>
      cases strs with
      | nil => exact fun s hs => nomatch hs
      | cons s' strs =>
          cases fuel with
          | zero => cases h
          | succ fuel =>
              have hs : s.getLast? ≠ some 92 := by
                intro hback
                have hle := scan_backslash hback h
                rw [commas_text, tokens_cons, List.tail_cons, List.map_cons, List.sum_cons] at hle
                exact Nat.not_succ_le_self _ (Nat.add_comm 1 _ ▸ hle)
              rw [text_cons, scan_literal (hnul s List.mem_cons_self) (Or.inl hs)] at h
              obtain ⟨rest, hseparator, h⟩ := bind_eq_ok.mp h
              cases h
              intro r hr
              rcases List.mem_cons.mp hr with rfl | hr
              · exact hs
              · obtain _ | _ | fuel := fuel
                · cases hseparator
                · rw [scan_comma] at hseparator
                  cases hseparator
                · rw [scan_separator] at hseparator
                  obtain ⟨rest, hscan, hrest⟩ := bind_eq_ok.mp hseparator
                  cases hrest
                  exact ih (fun s hs => hnul s (List.mem_cons_of_mem _ hs)) hscan r hr

/-- **Literals are scanned back to their values** if and only if none but the last one has a backslash at its
end. -/
theorem scansBack_iff (q : Quote) {strs : List (List UInt8)} (hnul : ∀ s ∈ strs, (0 : UInt8) ∉ s) :
    ScansBack q strs ↔ ∀ s ∈ strs.dropLast, s.getLast? ≠ some 92 := by
  constructor
  · intro h
    exact not_backslash_of_scan hnul (h fun _ _ => 0)
  · intro hends memory
    exact scan_text hnul hends (Nat.lt_succ_self _)

/-- `'it\'s', 'a\\'`: the backslash at the end of the last literal does no harm. -/
theorem scansBack_quote_and_backslash : ScansBack .single [ascii "it's", [97, 92]] :=
  (scansBack_iff .single (by decide)).mpr (by decide)

/-- `'\\', 'a'` is scanned to the string of a backslash and the name `a`. -/
theorem backslash_not_scansBack : ¬ ScansBack .single [[92], [97]] := by
  intro h
  have hscan : tokenize (fun _ _ => 0) (text .single [[92], [97]])
      = .ok [.string [92], .id [97]] := by rfl
  have heq := (h fun _ _ => 0).symm.trans hscan
  exact absurd heq (by decide)

end Literals

end Scroller.Hquery

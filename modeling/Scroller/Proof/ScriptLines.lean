import Scroller.Proof.Tokens
import Scroller.Script

/-!
# The client and the scanner of queries

The client leaves a line at its first semicolon, reads a string up to the first quote without a backslash of its
own, and takes every quote for the start of a string. The scanner goes on behind the semicolon, and takes the
longest string. Where these make no difference the client sees a text as the scanner does.
-/

namespace Scroller

/-- A quote of one of the two kinds. -/
def IsQuote (c : UInt8) : Prop := c = 39 ∨ c = 34

instance (c : UInt8) : Decidable (IsQuote c) := inferInstanceAs (Decidable (_ ∨ _))

/-- The places of a text tell of nothing but outside behind the first semicolon outside in a line, and of no quote
outside but there; `behind` says that such a semicolon stands in front. -/
def Clear : Bool → List (UInt8 × Place) → Prop
  | _, [] => True
  | behind, (c, k) :: m =>
      (k ≠ .outside → behind = false) ∧ (k = .outside → IsQuote c → behind = true)
        ∧ Clear (if c = 10 then false else behind || (c = 59 ∧ k = .outside)) m

/-- Strings side by side, where a backslash takes the next character: `none` is between two strings, and the
quote that a string is to end with is inside of it. -/
inductive Reads : Option UInt8 → List UInt8 → Option UInt8 → Prop
  | done (k : Option UInt8) : Reads k [] k
  | opens {q : UInt8} {w : List UInt8} {k : Option UInt8} : IsQuote q → Reads (some q) w k → Reads none (q :: w) k
  | closes {q : UInt8} {w : List UInt8} {k : Option UInt8} : Reads none w k → Reads (some q) (q :: w) k
  | escaped {q c : UInt8} {w : List UInt8} {k : Option UInt8} : Reads (some q) w k → Reads (some q) (92 :: c :: w) k
  | backslash (q : UInt8) : Reads (some q) [92] (some q)
  | char {q c : UInt8} {w : List UInt8} {k : Option UInt8} :
      c ≠ 92 → c ≠ q → Reads (some q) w k → Reads (some q) (c :: w) k

/-- The stretches of a text that are strings, with the empty ones between other characters. -/
def stretches (m : List (UInt8 × Place)) : List (List UInt8) :=
  (m.splitOnP fun x => x.2 ≠ .string).map fun run => run.map Prod.fst

/-- Every stretch reads as strings; the last one of the text may be left open. -/
def StretchesRead (m : List (UInt8 × Place)) : Prop :=
  (∀ run ∈ (stretches m).dropLast, Reads none run none) ∧ ∀ run ∈ (stretches m).getLast?, ∃ k, Reads none run k

/-! ### The client on a whole text -/

/-- Where the client is; at `rest` it has left a line. -/
inductive Mode where
  | outside
  | comment
  | string (q : UInt8)
  | rest

namespace Mode

def places : Mode → List UInt8 → List Place
  | _, [] => []
  | comment, c :: s => if c = 10 then .outside :: places outside s else .comment :: places comment s
  | string q, c :: s =>
      if c = 92 then
        match s with
        | [] => [.string]
        | _ :: s => .string :: .string :: places (string q) s
      else .string :: places (if c = q then outside else string q) s
  | rest, c :: s => .outside :: places (if c = 10 then outside else rest) s
  | outside, c :: s =>
      if c = 39 ∨ c = 34 then .string :: places (string c) s
      else if c = 45 then
        match s with
        | [] => [.outside]
        | d :: s =>
            if d = 45 then .comment :: .comment :: places comment s else .outside :: places outside (d :: s)
      else .outside :: places (if c = 59 then rest else outside) s

@[simp]
theorem places_nil (mode : Mode) : mode.places [] = [] := by cases mode <;> rfl

section Equations

variable {q c d : UInt8} {s : List UInt8}

theorem places_string (hc : c ≠ 92) :
    (string q).places (c :: s) = .string :: (if c = q then outside else string q).places s := by
  cases s <;> exact if_neg hc

theorem places_backslash (q d : UInt8) (s : List UInt8) :
    (string q).places (92 :: d :: s) = .string :: .string :: (string q).places s := rfl

theorem places_quote (hc : IsQuote c) : outside.places (c :: s) = .string :: (string c).places s := by
  cases s <;> exact if_pos hc

theorem places_minuses (s : List UInt8) :
    outside.places (45 :: 45 :: s) = .comment :: .comment :: comment.places s := rfl

theorem places_outside (hquote : ¬ IsQuote c) (hminus : c = 45 → s.head? ≠ some 45) :
    outside.places (c :: s) = .outside :: (if c = 59 then rest else outside).places s := by
  cases s with
  | nil =>
      refine (if_neg hquote).trans ?_
      rw [places_nil, ite_self]
  | cons d s =>
      refine (if_neg hquote).trans ?_
      by_cases hc : c = 45
      · subst hc
        rw [if_pos rfl, if_neg fun h => hminus rfl (congrArg some h)]
        rfl
      · rw [if_neg hc]

end Equations

theorem rest_places {p s : List UInt8} (hnl : (10 : UInt8) ∉ p.dropLast) (hs : s = [] ∨ p.getLast? = some 10) :
    rest.places (p ++ s) = List.replicate p.length .outside ++ outside.places s := by
  induction p with
  | nil =>
      rcases hs with rfl | hs
      · rfl
      · cases hs
  | cons c p ih =>
      rw [List.cons_append, places]
      cases p with
      | nil =>
          by_cases hc : c = 10
          · rw [if_pos hc]
            rfl
          · rw [if_neg hc]
            rcases hs with rfl | hs
            · rfl
            · exact absurd (Option.some.inj hs) hc
      | cons d p =>
          rw [List.dropLast_cons_cons] at hnl
          obtain ⟨hc, hnl⟩ := not_or.mp (mt List.mem_cons.mpr hnl)
          rw [if_neg (fun h => hc h.symm), ih hnl (hs.imp_right fun h => by rwa [List.getLast?_cons_cons] at h)]
          rfl

end Mode

/-! ### Line by line -/

namespace LineState

def mode (st : LineState) : Mode :=
  if st.inComment then .comment else if st.inString then .string st.quote else .outside

/-- The client is not in a comment and in a string. -/
def Plain (st : LineState) : Prop := st.inComment = true → st.inString = false

theorem mode_comment {st : LineState} (h : st.inComment = true) : st.mode = .comment := if_pos h

theorem mode_string {st : LineState} (h : ¬ st.inComment = true) (hs : st.inString = true) :
    st.mode = .string st.quote := by
  rw [mode, if_neg h, if_pos hs]

theorem mode_outside {st : LineState} (h : ¬ st.inComment = true) (hs : ¬ st.inString = true) :
    st.mode = .outside := by
  rw [mode, if_neg h, if_neg hs]

theorem mode_read {st : LineState} (h : ¬ st.inComment = true) (hs : st.inString = true) (c : UInt8) :
    (st.read c).mode = if c = st.quote then .outside else .string st.quote := by
  unfold read
  split
  · exact mode_outside h Bool.false_ne_true
  · exact mode_string h hs

end LineState

theorem LineState.plain_read {st : LineState} (h : ¬ st.inComment = true) (c : UInt8) : (st.read c).Plain := by
  unfold LineState.read
  split <;> exact fun hcomment => absurd hcomment h

/-- What a line makes of a text in front of the rest of it. -/
structure LineResult.Takes (r : LineResult) (mode : Mode) (l s : List UInt8) : Prop where
  places : r.places ++ r.state.mode.places s = mode.places (l ++ s)
  length : r.places.length = l.length
  found : r.found = true ↔ (59, Place.outside) ∈ l.zip r.places
  plain : r.state.Plain

theorem LineResult.Takes.behind {r : LineResult} {mode mode' : Mode} {c : UInt8} {k : Place} {p s : List UInt8}
    (h : r.Takes mode p s) (hplaces : mode'.places (c :: (p ++ s)) = k :: mode.places (p ++ s))
    (hc : ¬ ((59, Place.outside) = (c, k))) : (r.behind k).Takes mode' (c :: p) s where
  places := by
    rw [List.cons_append, hplaces, ← h.places]
    rfl
  length := congrArg (· + 1) h.length
  found := by
    change r.found = true ↔ (59, Place.outside) ∈ (c, k) :: p.zip r.places
    rw [List.mem_cons, or_iff_right hc, h.found]
  plain := h.plain

theorem LineResult.Takes.behind_two {r : LineResult} {mode mode' : Mode} {c d : UInt8} {k : Place} {p s : List UInt8}
    (h : r.Takes mode p s) (hplaces : mode'.places (c :: d :: (p ++ s)) = k :: k :: mode.places (p ++ s))
    (hk : k ≠ .outside) : ((r.behind k).behind k).Takes mode' (c :: d :: p) s where
  places := by
    rw [List.cons_append, List.cons_append, hplaces, ← h.places]
    rfl
  length := congrArg (· + 2) h.length
  found := by
    change r.found = true ↔ (59, Place.outside) ∈ (c, k) :: (d, k) :: p.zip r.places
    rw [List.mem_cons, or_iff_right fun heq => hk (Prod.mk.inj heq).2.symm, List.mem_cons,
      or_iff_right fun heq => hk (Prod.mk.inj heq).2.symm, h.found]
  plain := h.plain

theorem tail_of_line {c : UInt8} {p s : List UInt8} (hnl : (10 : UInt8) ∉ (c :: p).dropLast)
    (hs : s = [] ∨ c :: p = [] ∨ (c :: p).getLast? = some 10) :
    (10 : UInt8) ∉ p.dropLast ∧ (s = [] ∨ p = [] ∨ p.getLast? = some 10) := by
  cases p with
  | nil => exact ⟨List.not_mem_nil, .inr (.inl rfl)⟩
  | cons d p =>
      rw [List.dropLast_cons_cons] at hnl
      rw [or_iff_right (List.cons_ne_nil _ _), List.getLast?_cons_cons] at hs
      exact ⟨fun h => hnl (List.mem_cons_of_mem _ h), hs.imp_right .inr⟩

/-- A line is taken as it is in the whole text, if its newline stands at its end. -/
theorem lineHasSemicolon_takes {st : LineState} (hst : st.Plain) {l s : List UInt8} (hnul : (0 : UInt8) ∉ l)
    (hnl : (10 : UInt8) ∉ l.dropLast) (hs : s = [] ∨ l = [] ∨ l.getLast? = some 10) : (lineHasSemicolon st l).Takes st.mode l s := by
  induction hn : l.length using Nat.strong_induction_on generalizing l st with
  | _ n ih =>
      subst hn
      cases l with
      | nil => exact ⟨rfl, rfl, iff_of_false Bool.false_ne_true List.not_mem_nil, hst⟩
      | cons c p =>
          obtain ⟨hzero, htail⟩ := not_or.mp (mt List.mem_cons.mpr hnul)
          have hp : ∀ st' : LineState, st'.Plain → (lineHasSemicolon st' p).Takes st'.mode p s := by
            intro st' hst'
            obtain ⟨hnl, hs⟩ := tail_of_line hnl hs
            exact ih p.length (Nat.lt_succ_self _) hst' htail hnl hs rfl
          have hpp : ∀ (st' : LineState) d q, st'.Plain → p = d :: q → (lineHasSemicolon st' q).Takes st'.mode q s := by
            rintro st' d q hst' rfl
            obtain ⟨hnl, hs⟩ := tail_of_line hnl hs
            obtain ⟨hnl, hs⟩ := tail_of_line hnl hs
            exact ih q.length (by rw [List.length_cons, List.length_cons]; omega) hst'
              (fun h => htail (List.mem_cons_of_mem d h)) hnl hs rfl
          have hlast : p = [] → c ≠ 10 → s = [] := by
            rintro rfl hc
            exact hs.resolve_right fun h => hc (Option.some.inj (h.resolve_left (List.cons_ne_nil _ _)))
          by_cases hcomment : st.inComment = true
          · rw [LineState.mode_comment hcomment]
            unfold lineHasSemicolon
            rw [if_neg (Ne.symm hzero), if_pos hcomment]
            split
            · next hc =>
              have hnext := hp { st with inComment := false } nofun
              have hmode : LineState.mode { st with inComment := false } = .outside :=
                LineState.mode_outside Bool.false_ne_true (by rw [hst hcomment]; exact Bool.false_ne_true)
              rw [hmode] at hnext
              refine hnext.behind (by rw [Mode.places, if_pos hc]) fun h => ?_
              rw [hc] at h
              exact absurd h (by decide)
            · next hc =>
              have hnext := hp st hst
              rw [LineState.mode_comment hcomment] at hnext
              exact hnext.behind (by rw [Mode.places, if_neg hc]) nofun
          · by_cases hstring : st.inString = true
            · rw [LineState.mode_string hcomment hstring]
              unfold lineHasSemicolon
              rw [if_neg (Ne.symm hzero), if_neg hcomment, if_pos hstring]
              split
              · next hc =>
                cases p with
                | nil =>
                    subst hc
                    obtain rfl := hlast rfl (by decide)
                    exact ⟨by rw [Mode.places_nil]; rfl, rfl, iff_of_false Bool.false_ne_true (by simp),
                      LineState.plain_read hcomment 92⟩
                | cons d q =>
                    have hnext := hpp st d q hst rfl
                    rw [LineState.mode_string hcomment hstring] at hnext
                    subst hc
                    dsimp only
                    rw [if_neg fun hd : d = 0 => htail (hd ▸ List.mem_cons_self)]
                    exact hnext.behind_two (Mode.places_backslash _ _ _) (by decide)
              · next hc =>
                have hnext := hp (st.read c) (LineState.plain_read hcomment c)
                rw [LineState.mode_read hcomment hstring] at hnext
                exact hnext.behind (Mode.places_string hc) nofun
            · rw [LineState.mode_outside hcomment hstring]
              unfold lineHasSemicolon
              rw [if_neg (Ne.symm hzero), if_neg hcomment, if_neg hstring]
              split
              · next hc =>
                have hnext := hp { st with inString := true, quote := c } fun h => absurd h hcomment
                have hmode : LineState.mode { st with inString := true, quote := c } = .string c :=
                  LineState.mode_string hcomment rfl
                rw [hmode] at hnext
                exact hnext.behind (Mode.places_quote hc) nofun
              · next hquote =>
                split
                · next hc =>
                  cases p with
                  | nil =>
                      subst hc
                      obtain rfl := hlast rfl (by decide)
                      exact ⟨by rw [Mode.places_nil]; rfl, rfl, iff_of_false Bool.false_ne_true (by simp), hst⟩
                  | cons d q =>
                      subst hc
                      dsimp only
                      split
                      · next hd =>
                        subst hd
                        have hnext := hpp { st with inComment := true } 45 q
                          (fun _ => Bool.not_eq_true _ ▸ hstring) rfl
                        rw [LineState.mode_comment rfl] at hnext
                        exact hnext.behind_two (Mode.places_minuses _) (by decide)
                      · next hd =>
                        have hnext := hp st hst
                        rw [LineState.mode_outside hcomment hstring] at hnext
                        refine hnext.behind (Mode.places_outside hquote fun _ h => hd (Option.some.inj h)) fun h => ?_
                        exact absurd (Prod.mk.inj h).1 (by decide)
                · next hminus =>
                  split
                  · next hc =>
                    subst hc
                    obtain ⟨hnl', hs'⟩ := tail_of_line hnl hs
                    have hrest : Mode.rest.places (p ++ s) = List.replicate p.length .outside ++ Mode.outside.places s := by
                      refine Mode.rest_places hnl' (or_iff_not_imp_left.mpr fun hne => ?_)
                      rcases hs'.resolve_left hne with rfl | hlast'
                      · exact absurd (hlast rfl (by decide)) hne
                      · exact hlast'
                    refine ⟨?_, List.length_replicate, iff_of_true rfl ?_, hst⟩
                    · rw [List.cons_append, Mode.places_outside hquote fun h => absurd h hminus, if_pos rfl, hrest,
                        LineState.mode_outside hcomment hstring]
                      rfl
                    · exact List.mem_cons_self
                  · next hc =>
                    have hnext := hp st hst
                    rw [LineState.mode_outside hcomment hstring] at hnext
                    refine hnext.behind ?_ fun h => hc (Prod.mk.inj h).1.symm
                    rw [Mode.places_outside hquote fun h => absurd h hminus, if_neg hc]

theorem lines_eq {s : List UInt8} (h : s ≠ []) :
    ∃ l rest, s = l ++ rest ∧ lines s = l :: lines rest ∧ l ≠ [] ∧ (10 : UInt8) ∉ l.dropLast
      ∧ (rest = [] ∨ l.getLast? = some 10) := by
  induction s with
  | nil => exact absurd rfl h
  | cons c s ih =>
      rw [lines]
      split
      · next hc =>
        subst hc
        exact ⟨[10], s, rfl, rfl, List.cons_ne_nil _ _, List.not_mem_nil, .inr rfl⟩
      · next hc =>
        by_cases hs : s = []
        · subst hs
          exact ⟨[c], [], rfl, rfl, List.cons_ne_nil _ _, List.not_mem_nil, .inl rfl⟩
        · obtain ⟨l, rest, hsplit, hlines, hne, hnl, hrest⟩ := ih hs
          obtain ⟨d, l, rfl⟩ := List.exists_cons_of_ne_nil hne
          refine ⟨c :: d :: l, rest, by rw [hsplit]; rfl, by rw [hlines], List.cons_ne_nil _ _, ?_, ?_⟩
          · rw [List.dropLast_cons_cons]
            exact fun h => (List.mem_cons.mp h).elim (fun h => hc h.symm) hnl
          · rwa [List.getLast?_cons_cons]

/-- The lines of a text split at given places exactly if the client has these places all through the text. -/
theorem splitsAt_lines {st : LineState} (hst : st.Plain) (s : List UInt8) (hnul : (0 : UInt8) ∉ s) (ks : List Place) :
    SplitsAt st (lines s) ks ↔ st.mode.places s = ks := by
  induction hn : s.length using Nat.strong_induction_on generalizing s st ks with
  | _ n ih =>
      subst hn
      by_cases hs : s = []
      · subst hs
        rw [Mode.places_nil]
        exact eq_comm
      · obtain ⟨l, rest, hsplit, hlines, hne, hnl, hrest⟩ := lines_eq hs
        obtain ⟨hnul, hnul'⟩ := not_or.mp (mt List.mem_append.mpr (hsplit ▸ hnul))
        have htakes := lineHasSemicolon_takes hst hnul hnl (hrest.imp_right .inr)
        have hshort : rest.length < s.length := by
          have hpos := List.length_pos_of_ne_nil hne
          rw [hsplit, List.length_append]
          omega
        rw [hlines, SplitsAt, ih _ hshort htakes.plain rest hnul' _ rfl, hsplit, ← htakes.places]
        constructor
        · rintro ⟨hplaces, -, hstate⟩
          rw [hplaces, hstate, List.take_append_drop]
        · rintro rfl
          rw [← htakes.length, List.take_left, List.drop_left]
          exact ⟨rfl, htakes.found, rfl⟩

/-! ### The scanner -/

namespace Hquery

open Regex

variable {s u rest : List UInt8} {i n : Nat}

theorem placesLoop_fuel {fuel fuel' : Nat} (h : s.length ≤ fuel) (h' : s.length ≤ fuel') :
    placesLoop fuel s = placesLoop fuel' s := by
  induction fuel generalizing s fuel' with
  | zero =>
      rw [List.eq_nil_of_length_eq_zero (Nat.le_zero.mp h)]
      cases fuel' <;> rfl
  | succ fuel ih =>
      cases fuel' with
      | zero =>
          rw [List.eq_nil_of_length_eq_zero (Nat.le_zero.mp h')]
          rfl
      | succ fuel' =>
          rw [placesLoop, placesLoop]
          cases hlongest : longest patterns s with
          | none => rfl
          | some found =>
              obtain ⟨i, n⟩ := found
              have hpos := (longest_isLongest hlongest).pos
              dsimp only
              rw [@ih (s.drop n) fuel' (by rw [List.length_drop]; omega) (by rw [List.length_drop]; omega)]

theorem places_append (h : IsLongest patterns (u ++ rest) i u.length) :
    places (u ++ rest) = List.replicate u.length (rulePlace i) ++ places rest := by
  have hpos := h.pos
  have hlength : (u ++ rest).length = u.length + rest.length := List.length_append
  rw [places, hlength]
  obtain ⟨fuel, hfuel⟩ : ∃ fuel, u.length + rest.length = fuel + 1 := ⟨u.length + rest.length - 1, by omega⟩
  rw [hfuel, placesLoop, longest_eq_some_iff.mpr h]
  dsimp only
  rw [List.drop_left, placesLoop_fuel (by omega) (Nat.le_refl _), places]

theorem exists_longest (hs : s ≠ []) : ∃ i u rest, s = u ++ rest ∧ IsLongest patterns s i u.length := by
  obtain ⟨c, s, rfl⟩ := List.exists_cons_of_ne_nil hs
  have hany : ∃ r ∈ patterns, r.Matches [c] := by
    by_cases hc : c = 10
    · exact ⟨.cls (· = 10), List.mem_of_getElem? (i := 55) rfl, .cls (decide_eq_true hc)⟩
    · exact ⟨.cls anyChar, List.mem_of_getElem? (i := 56) rfl, .cls (decide_eq_true hc)⟩
  obtain ⟨r, hr, hmatch⟩ := hany
  cases hlongest : longest patterns (c :: s) with
  | none => exact absurd hmatch ((longest_spec patterns (c :: s)).1 hlongest 1 Nat.one_pos (Nat.succ_pos _) r hr)
  | some found =>
      obtain ⟨i, n⟩ := found
      have hfound := longest_isLongest hlongest
      refine ⟨i, (c :: s).take n, (c :: s).drop n, (List.take_append_drop _ _).symm, ?_⟩
      rwa [List.length_take, Nat.min_eq_left hfound.le]

theorem length_places (s : List UInt8) : (places s).length = s.length := by
  induction hn : s.length using Nat.strong_induction_on generalizing s with
  | _ n ih =>
      subst hn
      by_cases hs : s = []
      · subst hs
        rfl
      · obtain ⟨i, u, rest, rfl, hlongest⟩ := exists_longest hs
        have hpos := hlongest.pos
        rw [places_append hlongest, List.length_append, List.length_replicate,
          ih rest.length (by rw [List.length_append]; omega) rest rfl, List.length_append]

/-- The characters that start or end something for the client. -/
def special : List UInt8 := [10, 34, 39, 45, 59]

/-- Characters outside, as the scanner takes them together: behind the first one stand letters, blanks or signs. -/
def PlainPiece (u rest : List UInt8) : Prop :=
  ∃ c v, u = c :: v ∧ (∀ d ∈ v, d ∉ special) ∧ (c = 45 → (v ++ rest).head? ≠ some 45)

/-- A comment reaches to the end of its line. -/
def CommentPiece (u rest : List UInt8) : Prop :=
  ∃ v, u = 45 :: 45 :: v ∧ (10 : UInt8) ∉ v ∧ ∀ c ∈ rest.head?, c = 10

theorem isLongest_comment (s : List UInt8) :
    IsLongest patterns (45 :: 45 :: s) 1 ((s.takeWhile anyChar).length + 2) := by
  have hchars : ∀ d ∈ s.takeWhile anyChar, anyChar d = true := fun d hd => List.mem_takeWhile_imp hd
  have hmiss : ∀ t, t ≠ [] → t <+: s.dropWhile anyChar → ¬ Joined 45 (45 :: s.takeWhile anyChar ++ t) := by
    intro t ht hprefix hjoined
    obtain ⟨d, v, rfl, hd⟩ := head_of_prefix ht hprefix
    have hd : d = 10 := by
      have hhead := List.head?_dropWhile_not anyChar s
      rw [Option.mem_def.mp hd] at hhead
      exact not_not.mp (of_decide_eq_false hhead)
    subst hd
    rcases hjoined.minus with ⟨-, hnewline⟩ | hnum
    · exact hnewline (List.mem_append_right _ List.mem_cons_self)
    · exact absurd (hnum 45 List.mem_cons_self) (by decide)
  have hwhole : IsLongest patterns (45 :: 45 :: s.takeWhile anyChar) 1 (45 :: 45 :: s.takeWhile anyChar).length := by
    refine IsLongest.whole (List.cons_ne_nil _ _) ⟨_, rfl, ?_⟩ ?_
    · exact .seq (u := [45, 45]) (matches_word.mpr rfl) (matches_star_cls.mpr hchars)
    · intro j hj r hr hmatch
      obtain rfl : j = 0 := Nat.lt_one_iff.mp hj
      cases hr
      exact absurd ((matches_plus.mp hmatch).2 45 List.mem_cons_self) (by decide)
  have hlongest := hwhole.append (v := s.dropWhile anyChar) (not_matches_of_not_joined hmiss)
  rwa [List.cons_append, List.cons_append, List.takeWhile_append_dropWhile] at hlongest

theorem not_special_of_alnum {d : UInt8} (h : ALNUM d = true) : d ∉ special := by
  intro hmem
  have hcases : d = 10 ∨ d = 34 ∨ d = 39 ∨ d = 45 ∨ d = 59 := by simpa [special] using hmem
  rcases hcases with rfl | rfl | rfl | rfl | rfl <;> exact absurd h (by decide)

theorem not_special_of_space {d : UInt8} (h : SPACE d = true) : d ∉ special := by
  rcases space_cases h with rfl | rfl | rfl <;> decide

theorem not_special_of_closer {d : UInt8} (h : d ∈ closers) : d ∉ special := by
  have hcases : d = 36 ∨ d = 61 ∨ d = 62 ∨ d = 124 := by simpa [closers] using h
  rcases hcases with rfl | rfl | rfl | rfl <;> decide

/-- The scanner takes a text piece by piece: a string, a comment, or characters outside. -/
theorem places_piece (hs : s ≠ []) : ∃ u rest k, s = u ++ rest ∧ u ≠ []
    ∧ places s = List.replicate u.length k ++ places rest
    ∧ (k = .string ∨ k = .comment ∧ CommentPiece u rest ∨ k = .outside ∧ PlainPiece u rest) := by
  by_cases hcomment : ∃ v, s = 45 :: 45 :: v
  · obtain ⟨v, rfl⟩ := hcomment
    have hsplit : 45 :: 45 :: v = (45 :: 45 :: v.takeWhile anyChar) ++ v.dropWhile anyChar := by
      rw [List.cons_append, List.cons_append, List.takeWhile_append_dropWhile]
    have hlongest := isLongest_comment v
    rw [hsplit] at hlongest
    refine ⟨_, _, .comment, hsplit, List.cons_ne_nil _ _, ?_, .inr (.inl ⟨rfl, _, rfl, ?_, ?_⟩)⟩
    · rw [hsplit]
      exact places_append hlongest
    · intro hmem
      exact absurd (List.mem_takeWhile_imp hmem) (by decide)
    · intro c hc
      have hhead := List.head?_dropWhile_not anyChar v
      rw [Option.mem_def.mp hc] at hhead
      exact not_not.mp (of_decide_eq_false hhead)
  · obtain ⟨i, u, rest, hsplit, hlongest⟩ := exists_longest hs
    have hu : u ≠ [] := List.ne_nil_of_length_pos hlongest.pos
    obtain ⟨c, v, rfl⟩ := List.exists_cons_of_ne_nil hu
    refine ⟨c :: v, rest, rulePlace i, hsplit, hu, ?_, ?_⟩
    · rw [hsplit] at hlongest ⊢
      exact places_append hlongest
    · obtain ⟨r, hr, hmatch⟩ := hlongest.hit
      rw [hsplit, List.take_left] at hmatch
      by_cases hstring : i = 51 ∨ i = 52
      · refine .inl ?_
        rcases hstring with rfl | rfl <;> rfl
      · have hminus : c = 45 → (v ++ rest).head? ≠ some 45 := by
          rintro rfl hhead
          obtain ⟨w, hw⟩ := List.head?_eq_some_iff.mp hhead
          exact hcomment ⟨w, by rw [hsplit, List.cons_append, hw]⟩
        have hone : i ≠ 1 := by
          rintro rfl
          cases hr
          obtain ⟨x, w, hxw, hx, -⟩ := matches_seq.mp hmatch
          obtain ⟨a, x, rfl, ha, hlower⟩ := List.map_eq_cons_iff.mp (show x.map lower = [45, 45] from matches_word.mp hx)
          obtain ⟨b, x, rfl, hb, -⟩ := List.map_eq_cons_iff.mp hlower
          obtain ⟨rfl, rfl⟩ := List.cons.inj hxw
          exact hminus ((lower_cases ha).resolve_right (by decide))
            (congrArg some ((lower_cases hb).resolve_right (by decide)))
        refine .inr (.inr ⟨by rw [rulePlace, if_neg hone, if_neg hstring], c, v, rfl, fun d hd => ?_, hminus⟩)
        cases joined_of_matches (List.mem_of_getElem? hr) hmatch (List.ne_nil_of_mem hd) with
        | spaces _ hall => exact not_special_of_space (hall d hd)
        | comment hc hhead =>
            obtain ⟨w, rfl⟩ := List.head?_eq_some_iff.mp hhead
            exact absurd rfl (hminus hc)
        | negative _ hall => exact not_special_of_alnum (alnum_of_num (hall d hd))
        | letters _ hall => exact not_special_of_alnum (hall d hd)
        | operator _ hall => exact not_special_of_closer (hall d hd)
        | quoted q hc =>
            have hidx : i ≠ q.idx := by
              rintro rfl
              exact hstring (by cases q; exacts [.inr rfl, .inl rfl])
            rw [hc] at hmatch
            have hnil := eq_nil_of_stuck (Quote.stuck_behind_quote hidx hr) (deriv_iff.mpr hmatch)
            exact absurd hnil (List.ne_nil_of_mem hd)

end Hquery

/-! ### Both on a piece -/

/-- Whether the client has left the line. -/
def Mode.behind (b : Bool) : Mode := if b then .rest else .outside

/-- Whether it has behind a character outside. -/
def leaves (b : Bool) (c : UInt8) : Bool := if c = 10 then false else b || c = 59

section Pieces

variable {u v s rest : List UInt8} {ks : List Place} {m : List (UInt8 × Place)} {b : Bool}

theorem Mode.behind_outside {c : UInt8} (hquote : IsQuote c → b = true) (hminus : c = 45 → s.head? ≠ some 45) :
    (Mode.behind b).places (c :: s) = .outside :: (Mode.behind (leaves b c)).places s := by
  cases b with
  | true =>
      change Mode.rest.places (c :: s) = _
      rw [Mode.places, leaves, Mode.behind]
      by_cases hc : c = 10
      · rw [if_pos hc, if_pos hc]
        rfl
      · rw [if_neg hc, if_neg hc]
        rfl
  | false =>
      change Mode.outside.places (c :: s) = _
      rw [Mode.places_outside (fun h => absurd (hquote h) Bool.false_ne_true) hminus, leaves, Mode.behind]
      by_cases hc : c = 59
      · subst hc
        rfl
      · simp [hc]

theorem Mode.behind_plain (hv : ∀ d ∈ v, d ∉ Hquery.special) :
    (Mode.behind b).places (v ++ rest) = List.replicate v.length .outside ++ (Mode.behind b).places rest := by
  induction v with
  | nil => rfl
  | cons d v ih =>
      obtain ⟨hd, hv⟩ := List.forall_mem_cons.mp hv
      have hnewline : d ≠ 10 := fun h => hd (h ▸ by decide)
      have hsemicolon : d ≠ 59 := fun h => hd (h ▸ by decide)
      have hleaves : leaves b d = b := by
        rw [leaves, if_neg hnewline, decide_eq_false hsemicolon, Bool.or_false]
      rw [List.cons_append, Mode.behind_outside (fun h => ?_) (fun h => ?_), hleaves, ih hv]
      · rfl
      · rcases h with rfl | rfl <;> exact absurd (by decide) hd
      · exact absurd (h ▸ by decide) hd

theorem Mode.comment_piece (h : Hquery.CommentPiece u rest) :
    Mode.outside.places (u ++ rest) = List.replicate u.length .comment ++ Mode.outside.places rest := by
  obtain ⟨v, rfl, hv, hrest⟩ := h
  have hcomment : Mode.comment.places (v ++ rest) = List.replicate v.length .comment ++ Mode.outside.places rest := by
    induction v with
    | nil =>
        cases rest with
        | nil => rfl
        | cons c rest =>
            obtain rfl := hrest c rfl
            rw [List.nil_append, Mode.places, if_pos rfl,
              Mode.places_outside (by decide) fun h => absurd h (by decide), if_neg (by decide)]
            rfl
    | cons c v ih =>
        obtain ⟨hc, hv⟩ := not_or.mp (mt List.mem_cons.mpr hv)
        rw [List.cons_append, Mode.places, if_neg fun h => hc h.symm, ih hv]
        rfl
  rw [List.cons_append, List.cons_append, Mode.places_minuses, hcomment]
  rfl

/-- Behind a semicolon the client has nothing but characters outside. -/
theorem Mode.left_piece {k : Place} (hk : k ≠ .outside) (hu : u ≠ []) :
    ¬ (Mode.behind true).places (u ++ rest) = List.replicate u.length k ++ ks := by
  obtain ⟨c, v, rfl⟩ := List.exists_cons_of_ne_nil hu
  intro h
  exact hk (List.cons.inj h).1.symm

theorem zip_piece (u : List UInt8) (k : Place) (rest : List UInt8) (ks : List Place) :
    (u ++ rest).zip (List.replicate u.length k ++ ks) = u.map (·, k) ++ rest.zip ks := by
  rw [List.zip_append List.length_replicate.symm]
  congr 1
  induction u with
  | nil => rfl
  | cons c u ih => exact congrArg ((c, k) :: ·) ih

/-- Comments and strings stand where the line has not been left. -/
theorem clear_piece {k : Place} (hk : k ≠ .outside) (hu : u ≠ []) :
    Clear b (u.map (·, k) ++ m) ↔ b = false ∧ Clear false m := by
  induction u generalizing b with
  | nil => exact absurd rfl hu
  | cons c u ih =>
      have hnext : (if c = 10 then false else false || decide (c = 59 ∧ k = .outside)) = false := by
        simp [hk]
      rw [List.map_cons, List.cons_append, Clear]
      by_cases hb : b = false
      · subst hb
        rw [hnext, and_iff_right fun _ => rfl, and_iff_right fun h => absurd h hk, and_iff_right rfl]
        by_cases hu : u = []
        · subst hu
          rfl
        · rw [ih hu, and_iff_right rfl]
      · exact iff_of_false (fun h => hb (h.1 hk)) fun h => hb h.1

theorem clear_outside {c : UInt8} :
    Clear b ((c, .outside) :: m) ↔ (IsQuote c → b = true) ∧ Clear (leaves b c) m := by
  have hnext : (if c = 10 then false else b || decide (c = 59 ∧ Place.outside = .outside)) = leaves b c := by
    simp [leaves]
  rw [Clear, hnext, and_iff_right fun h => absurd rfl h]
  exact and_congr_left fun _ => ⟨fun h => h rfl, fun h _ => h⟩

theorem clear_plain (hv : ∀ d ∈ v, d ∉ Hquery.special) :
    Clear b (v.map (·, .outside) ++ m) ↔ Clear b m := by
  induction v with
  | nil => exact Iff.rfl
  | cons d v ih =>
      obtain ⟨hd, hv⟩ := List.forall_mem_cons.mp hv
      have hnewline : d ≠ 10 := fun h => hd (h ▸ by decide)
      have hsemicolon : d ≠ 59 := fun h => hd (h ▸ by decide)
      have hleaves : leaves b d = b := by
        rw [leaves, if_neg hnewline, decide_eq_false hsemicolon, Bool.or_false]
      rw [List.map_cons, List.cons_append, clear_outside, hleaves, ih hv, and_iff_right]
      rintro (rfl | rfl) <;> exact absurd (by decide) hd

end Pieces

/-! ### Stretches of strings -/

section Stretches

variable {u s : List UInt8} {ks : List Place} {m : List (UInt8 × Place)} {q c d : UInt8} {k : Option UInt8}

theorem stretches_ne_nil (m : List (UInt8 × Place)) : stretches m ≠ [] := by
  rw [stretches, Ne, List.map_eq_nil_iff]
  exact List.splitOnP_ne_nil _ _

theorem stretchesRead_split {x : UInt8 × Place} (hx : x.2 ≠ .string) (xs : List (UInt8 × Place)) :
    StretchesRead (xs ++ x :: m) ↔ (∀ run ∈ stretches xs, Reads none run none) ∧ StretchesRead m := by
  have hsplit : stretches (xs ++ x :: m) = stretches xs ++ stretches m := by
    have hsep : (fun x : UInt8 × Place => decide (x.2 ≠ .string)) x = true := decide_eq_true hx
    rw [stretches, List.splitOnP_append_cons xs m hsep, List.map_append]
    rfl
  rw [StretchesRead, hsplit, List.dropLast_append_of_ne_nil (stretches_ne_nil m),
    List.getLast?_append_of_ne_nil _ (stretches_ne_nil m), List.forall_mem_append, and_assoc]
  rfl

theorem stretchesRead_cons {x : UInt8 × Place} (hx : x.2 ≠ .string) : StretchesRead (x :: m) ↔ StretchesRead m := by
  rw [← List.nil_append (x :: m), stretchesRead_split hx, and_iff_right]
  exact List.forall_mem_singleton.mpr (.done none)

theorem stretchesRead_piece {k : Place} (hk : k ≠ .string) (u : List UInt8) :
    StretchesRead (u.map (·, k) ++ m) ↔ StretchesRead m := by
  induction u with
  | nil => exact Iff.rfl
  | cons c u ih => rw [List.map_cons, List.cons_append, stretchesRead_cons hk, ih]

theorem stretches_strings (u : List UInt8) : stretches (u.map (·, .string)) = [u] := by
  rw [stretches, List.splitOnP_eq_singleton]
  · rw [List.map_singleton, List.map_map]
    exact congrArg (fun run => [run]) (List.map_id u)
  · intro x hx
    obtain ⟨c, -, rfl⟩ := List.mem_map.mp hx
    rfl

/-- Strings side by side up to another character, or to the end. -/
theorem stretchesRead_strings (hm : ∀ x ∈ m.head?, x.2 ≠ .string) :
    StretchesRead (u.map (·, .string) ++ m) ↔
      (Reads none u none ∧ StretchesRead m) ∨ m = [] ∧ ∃ q, Reads none u (some q) := by
  cases m with
  | nil =>
      have hempty : StretchesRead [] := ⟨nofun, fun run hrun => ⟨none, by cases hrun; exact .done none⟩⟩
      rw [List.append_nil, StretchesRead, stretches_strings, and_iff_left hempty, and_iff_right rfl]
      constructor
      · rintro ⟨-, hread⟩
        obtain ⟨_ | q, hk⟩ := hread u rfl
        · exact .inl hk
        · exact .inr ⟨q, hk⟩
      · rintro (h | ⟨q, h⟩)
        · exact ⟨nofun, fun run hrun => ⟨none, by cases hrun; exact h⟩⟩
        · exact ⟨nofun, fun run hrun => ⟨some q, by cases hrun; exact h⟩⟩
  | cons x m =>
      have hx := hm x rfl
      rw [stretchesRead_split hx, stretches_strings, List.forall_mem_singleton, stretchesRead_cons hx,
        or_iff_left fun h => List.cons_ne_nil _ _ h.1]

theorem reads_cons : Reads none (c :: u) k ↔ IsQuote c ∧ Reads (some c) u k := by
  constructor
  · intro h
    cases h with
    | opens hc h => exact ⟨hc, h⟩
  · rintro ⟨hc, h⟩
    exact .opens hc h

theorem reads_close (hq : q ≠ 92) : Reads (some q) (q :: u) k ↔ Reads none u k := by
  constructor
  · intro h
    cases h with
    | closes h => exact h
    | escaped => exact absurd rfl hq
    | backslash => exact absurd rfl hq
    | char _ hne => exact absurd rfl hne
  · exact .closes

theorem reads_escaped (hq : q ≠ 92) : Reads (some q) (92 :: c :: u) k ↔ Reads (some q) u k := by
  constructor
  · intro h
    cases h with
    | closes => exact absurd rfl hq
    | escaped h => exact h
    | char hne => exact absurd rfl hne
  · exact .escaped

theorem reads_char (hback : c ≠ 92) (hc : c ≠ q) : Reads (some q) (c :: u) k ↔ Reads (some q) u k := by
  constructor
  · intro h
    cases h with
    | closes => exact absurd rfl hc
    | escaped => exact absurd rfl hback
    | backslash => exact absurd rfl hback
    | char _ _ h => exact h
  · exact .char hback hc

/-- Where the client is in front of strings or in one of them. -/
def Mode.inside : Option UInt8 → Mode
  | none => .outside
  | some q => .string q

theorem head_string_places {mode : Mode} (h : mode = .string q) (hs : s ≠ []) :
    (mode.places s).head? = some .string := by
  subst h
  obtain ⟨c, s, rfl⟩ := List.exists_cons_of_ne_nil hs
  by_cases hc : c = 92
  · subst hc
    cases s <;> rfl
  · rw [Mode.places_string hc]
    rfl

theorem head_outside_places (hc : ¬ IsQuote c) : (Mode.outside.places (c :: s)).head? ≠ some .string := by
  by_cases hminus : c = 45 ∧ s.head? = some 45
  · obtain ⟨rfl, hhead⟩ := hminus
    obtain ⟨s, rfl⟩ := List.head?_eq_some_iff.mp hhead
    exact nofun
  · rw [Mode.places_outside hc fun h hhead => hminus ⟨h, hhead⟩]
    exact nofun

/-- The client has strings side by side where they read as such. -/
theorem places_strings (hks : ks.head? ≠ some .string) (hlen : ks = [] ↔ s = []) (hk : ∀ q ∈ k, IsQuote q) :
    (Mode.inside k).places (u ++ s) = List.replicate u.length .string ++ ks ↔
      (Reads k u none ∧ Mode.outside.places s = ks) ∨ s = [] ∧ ∃ q, Reads k u (some q) := by
  induction hn : u.length using Nat.strong_induction_on generalizing u k with
  | _ n ih =>
      subst hn
      cases u with
      | nil =>
          rw [List.nil_append]
          change (Mode.inside k).places s = ks ↔ _
          cases k with
          | none =>
              have hnone : ¬ ∃ q, Reads none [] (some q) := fun ⟨q, h⟩ => by cases h
              rw [and_iff_right (.done none), or_iff_left fun h => hnone h.2]
              rfl
          | some q =>
              have hsome : ¬ Reads (some q) [] none := fun h => by cases h
              rw [or_iff_right fun h => hsome h.1, and_iff_left ⟨q, .done (some q)⟩]
              constructor
              · intro hplaces
                by_contra hs
                rw [← hplaces] at hks
                exact hks (head_string_places rfl hs)
              · rintro rfl
                rw [Mode.places_nil, hlen.mpr rfl]
      | cons c u =>
          have htail : ∀ k' : Option UInt8, (∀ q ∈ k', IsQuote q) →
              ((Mode.inside k').places (u ++ s) = List.replicate u.length .string ++ ks ↔
                (Reads k' u none ∧ Mode.outside.places s = ks) ∨ s = [] ∧ ∃ q, Reads k' u (some q)) :=
            fun k' hk' => ih u.length (Nat.lt_succ_self _) hk' rfl
          rw [List.cons_append, List.length_cons, List.replicate_succ, List.cons_append]
          cases k with
          | none =>
              simp only [reads_cons]
              by_cases hc : IsQuote c
              · rw [Mode.inside, Mode.places_quote hc, List.cons_inj_right]
                simp only [and_iff_right hc]
                exact htail (some c) fun q hq => Option.some.inj hq ▸ hc
              · refine iff_of_false (fun h => ?_) ?_
                · refine head_outside_places hc (?_ : (Mode.outside.places (c :: (u ++ s))).head? = _)
                  rw [show Mode.outside.places (c :: (u ++ s)) = _ from h]
                  rfl
                · rintro (h | ⟨-, q, h⟩)
                  · exact hc h.1.1
                  · exact hc h.1
          | some q =>
              have hquote : IsQuote q := hk q rfl
              have hback : q ≠ 92 := by
                rintro rfl
                exact absurd hquote (by decide)
              by_cases hc : c = 92
              · subst hc
                cases u with
                | nil =>
                    have hsome : ¬ Reads (some q) [92] none := by
                      intro h
                      cases h with
                      | closes => exact hback rfl
                      | char hne => exact hne rfl
                    rw [or_iff_right fun h => hsome h.1, and_iff_left ⟨q, .backslash q⟩]
                    constructor
                    · intro hplaces
                      by_contra hs
                      obtain ⟨d, s, rfl⟩ := List.exists_cons_of_ne_nil hs
                      have heq : ks = .string :: (Mode.string q).places s := (List.cons.inj hplaces).2.symm
                      rw [heq] at hks
                      exact hks rfl
                    · rintro rfl
                      rw [hlen.mpr rfl]
                      rfl
                | cons d u =>
                    rw [Mode.inside, List.cons_append, Mode.places_backslash, List.length_cons, List.replicate_succ,
                      List.cons_append, List.cons_inj_right, List.cons_inj_right]
                    simp only [reads_escaped hback]
                    exact ih u.length (by rw [List.length_cons, List.length_cons]; omega) hk rfl
              · rw [Mode.inside, Mode.places_string hc, List.cons_inj_right]
                by_cases hclose : c = q
                · subst hclose
                  rw [if_pos rfl]
                  simp only [reads_close hback]
                  exact htail none nofun
                · rw [if_neg hclose]
                  simp only [reads_char hc hclose]
                  exact htail (some q) hk

end Stretches

/-! ### The whole text -/

namespace Hquery

theorem places_stretch {s : List UInt8} (h : (places s).head? = some .string) : ∃ u rest, s = u ++ rest ∧ u ≠ []
    ∧ places s = List.replicate u.length .string ++ places rest ∧ (places rest).head? ≠ some .string := by
  induction hn : s.length using Nat.strong_induction_on generalizing s with
  | _ n ih =>
      subst hn
      have hs : s ≠ [] := by
        rintro rfl
        cases h
      obtain ⟨u, rest, k, rfl, hu, hplaces, -⟩ := places_piece hs
      obtain ⟨c, v, rfl⟩ := List.exists_cons_of_ne_nil hu
      obtain rfl : k = .string := by
        rw [hplaces] at h
        exact Option.some.inj h
      by_cases hrest : (places rest).head? = some .string
      · obtain ⟨w, rest, rfl, -, hplaces', hend⟩ :=
          ih rest.length (by rw [List.cons_append, List.length_cons, List.length_append]; omega) hrest rfl
        refine ⟨c :: v ++ w, rest, (List.append_assoc _ _ _).symm, List.cons_ne_nil _ _, ?_, hend⟩
        rw [hplaces, hplaces', List.length_append, List.replicate_add, List.append_assoc]
      · exact ⟨c :: v, rest, rfl, hu, hplaces, hrest⟩

end Hquery

theorem behind_places_iff (s : List UInt8) (b : Bool) :
    (Mode.behind b).places s = Hquery.places s ↔
      Clear b (s.zip (Hquery.places s)) ∧ StretchesRead (s.zip (Hquery.places s)) := by
  induction hn : s.length using Nat.strong_induction_on generalizing s b with
  | _ n ih =>
      subst hn
      by_cases hs : s = []
      · subst hs
        rw [Mode.places_nil]
        refine iff_of_true rfl ⟨trivial, nofun, fun run hrun => ⟨none, ?_⟩⟩
        cases hrun
        exact .done none
      by_cases hstring : (Hquery.places s).head? = some .string
      · obtain ⟨u, rest, hsplit, hu, hplaces, hend⟩ := Hquery.places_stretch hstring
        have hshort : rest.length < s.length := by
          have hpos := List.length_pos_of_ne_nil hu
          rw [hsplit, List.length_append]
          omega
        have hnil : Hquery.places rest = [] ↔ rest = [] := by
          rw [← List.length_eq_zero_iff, Hquery.length_places, List.length_eq_zero_iff]
        have hzip : ∀ x ∈ (rest.zip (Hquery.places rest)).head?, x.2 ≠ .string := by
          intro x hx hstring
          cases rest with
          | nil => cases hx
          | cons c rest =>
              obtain ⟨k, ks, hks⟩ := List.exists_cons_of_ne_nil (mt hnil.mp (List.cons_ne_nil c rest))
              rw [hks] at hx hend
              cases hx
              exact hend (congrArg some hstring)
        have hzipnil : rest.zip (Hquery.places rest) = [] ↔ rest = [] := by
          rw [List.zip_eq_nil_iff, hnil, or_self]
        rw [hplaces, hsplit, zip_piece, clear_piece (by decide) hu, stretchesRead_strings hzip, hzipnil]
        cases b with
        | true => exact iff_of_false (Mode.left_piece (by decide) hu) fun h => absurd h.1.1 (by decide)
        | false =>
            rw [and_iff_right rfl]
            refine (@places_strings u rest (Hquery.places rest) none hend hnil nofun).trans ?_
            rw [show (Mode.outside.places rest = Hquery.places rest) ↔ _ from ih _ hshort rest false rfl]
            constructor
            · rintro (⟨hreads, hclear, hstretches⟩ | ⟨rfl, hopen⟩)
              · exact ⟨hclear, .inl ⟨hreads, hstretches⟩⟩
              · exact ⟨trivial, .inr ⟨rfl, hopen⟩⟩
            · rintro ⟨hclear, ⟨hreads, hstretches⟩ | hopen⟩
              · exact .inl ⟨hreads, hclear, hstretches⟩
              · exact .inr hopen
      · obtain ⟨u, rest, k, hsplit, hu, hplaces, hpiece⟩ := Hquery.places_piece hs
        have hshort : rest.length < s.length := by
          have hpos := List.length_pos_of_ne_nil hu
          rw [hsplit, List.length_append]
          omega
        rw [hplaces, hsplit, zip_piece]
        obtain rfl | ⟨rfl, hcomment⟩ | ⟨rfl, hplain⟩ := hpiece
        · obtain ⟨c, v, rfl⟩ := List.exists_cons_of_ne_nil hu
          rw [hplaces] at hstring
          exact absurd rfl hstring
        · rw [clear_piece (by decide) hu, stretchesRead_piece (by decide)]
          cases b with
          | true => exact iff_of_false (Mode.left_piece (by decide) hu) fun h => absurd h.1.1 (by decide)
          | false =>
              rw [and_iff_right rfl, ← ih _ hshort rest false rfl]
              change Mode.outside.places (u ++ rest) = _ ↔ Mode.outside.places rest = _
              rw [Mode.comment_piece hcomment, List.append_cancel_left_eq]
        · obtain ⟨c, v, rfl, hv, hminus⟩ := hplain
          rw [stretchesRead_piece (by decide), List.map_cons, List.cons_append, List.cons_append, clear_outside,
            clear_plain hv, and_assoc, ← ih _ hshort rest _ rfl, List.length_cons, List.replicate_succ, List.cons_append]
          by_cases hquote : IsQuote c → b = true
          · rw [and_iff_right hquote, Mode.behind_outside hquote hminus, Mode.behind_plain hv, List.cons_inj_right,
              List.append_cancel_left_eq]
          · obtain ⟨hc, hb⟩ := Classical.not_imp.mp hquote
            rw [Bool.not_eq_true] at hb
            subst hb
            refine iff_of_false (fun h => ?_) fun h => hquote h.1
            rw [show (Mode.behind false).places (c :: (v ++ rest)) = _ from Mode.places_quote hc] at h
            cases (List.cons.inj h).1

/-- **The lines of a script.** In a text without null bytes the client has, line by line, the places of the scanner,
and finds the semicolons that
the scanner has outside, if and only if in the scan of the text (1) everything behind the first semicolon outside
in a line is outside and no quote is outside but there, and (2) every stretch of strings reads as strings in which a
backslash takes the next character. -/
theorem splitsAt_iff {s : List UInt8} (hnul : (0 : UInt8) ∉ s) :
    SplitsAt .start (lines s) (Hquery.places s) ↔
      Clear false (s.zip (Hquery.places s)) ∧ StretchesRead (s.zip (Hquery.places s)) := by
  rw [splitsAt_lines (fun _ => rfl) s hnul]
  exact behind_places_iff s false

/-- A string over two lines with a semicolon, and one behind it. -/
theorem splitsAt_iff_string :
    SplitsAt .start (lines (ascii "'\n;';")) (Hquery.places (ascii "'\n;';"))
      ∧ Clear false ((ascii "'\n;';").zip (Hquery.places (ascii "'\n;';")))
      ∧ StretchesRead ((ascii "'\n;';").zip (Hquery.places (ascii "'\n;';"))) := by
  have hplaces : Hquery.places (ascii "'\n;';") = List.replicate 4 .string ++ [.outside] := by rfl
  have hsplits : SplitsAt .start (lines (ascii "'\n;';")) (Hquery.places (ascii "'\n;';")) := by
    rw [hplaces]
    exact ⟨by decide, by decide, by decide, by decide, rfl⟩
  exact ⟨hsplits, (splitsAt_iff (by decide)).mp hsplits⟩

/-- The string of the first line goes on in the second one, whose semicolon is in it. -/
theorem not_splitsAt_rest :
    Hquery.places (ascii "a;'b\n;'") = List.replicate 2 .outside ++ List.replicate 5 .string
      ∧ ((lineHasSemicolon .start (ascii "a;'b\n")).found = true
        ∧ (lineHasSemicolon (lineHasSemicolon .start (ascii "a;'b\n")).state (ascii ";'")).found = true)
      ∧ ¬ SplitsAt .start (lines (ascii "a;'b\n;'")) (Hquery.places (ascii "a;'b\n;'")) := by
  have hplaces : Hquery.places (ascii "a;'b\n;'") = List.replicate 2 .outside ++ List.replicate 5 .string := by rfl
  refine ⟨hplaces, by decide, fun h => ?_⟩
  rw [hplaces] at h
  exact absurd h.1 (by decide)

end Scroller

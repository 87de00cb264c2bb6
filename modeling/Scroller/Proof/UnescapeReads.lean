import Scroller.Lib.CString
import Scroller.Proof.QuotedStrings
import Scroller.StringAccess

/-!
# Unescaping undoes escaping

`str_unescape` finds the string of a literal, and reads nothing behind its closing quote.
-/

namespace Scroller.Hquery

open CString

variable {mem : Int → UInt8} {memory : Nat → UInt8} {fuel d : Nat} {p : Int} {q : Quote} {s : List UInt8}

/-- The loop over an escaped string, which ends at the closing quote. -/
theorem unescapeLoop_escape (hnul : (0 : UInt8) ∉ s) (h : Chars mem p (q.escape s ++ [q.char]))
    (hfuel : s.length < fuel) :
    ∃ reads, unescapeLoop mem memory q.char fuel p d = some (s, reads)
      ∧ ∀ a ∈ reads, p ≤ a ∧ a ≤ p + (q.escape s).length := by
  induction s generalizing fuel d p with
  | nil =>
      obtain ⟨fuel, rfl⟩ := Nat.exists_eq_succ_of_ne_zero (Nat.ne_zero_of_lt hfuel)
      rw [Nat.succ_eq_add_one, unescapeLoop, if_pos (.inr h.1)]
      refine ⟨[p], rfl, ?_⟩
      intro a ha
      rw [List.mem_singleton.mp ha]
      omega
  | cons c s ih =>
      obtain ⟨fuel, rfl⟩ := Nat.exists_eq_succ_of_ne_zero (Nat.ne_zero_of_lt hfuel)
      have hc : c ≠ 0 := fun hzero => hnul (hzero ▸ List.mem_cons_self)
      have hrest : (0 : UInt8) ∉ s := fun hzero => hnul (List.mem_cons_of_mem _ hzero)
      have hlt : s.length < fuel := Nat.lt_of_succ_lt_succ hfuel
      rw [Quote.escape_cons] at h ⊢
      rw [Nat.succ_eq_add_one, unescapeLoop]
      by_cases hspecial : c = q.char ∨ c = 92
      · rw [if_pos hspecial] at h ⊢
        obtain ⟨hback, hchar, htail⟩ := h
        rw [show p + 1 + 1 = p + 2 by omega] at htail
        obtain ⟨reads, hloop, hreads⟩ := @ih fuel (d + 1) (p + 2) hrest htail hlt
        have hgo : ¬ (mem p = 0 ∨ mem p = q.char) := by
          rw [hback, not_or]
          exact ⟨by decide, Quote.char_ne_backslash.symm⟩
        rw [if_neg hgo, if_pos hback, hchar, hloop]
        refine ⟨p :: (p + 1) :: reads, ?_, ?_⟩
        · rcases hspecial with rfl | rfl
          · rw [if_pos rfl]
            rfl
          · rw [if_neg Quote.char_ne_backslash.symm, if_pos (.inr (.inr rfl))]
            rfl
        · intro a ha
          rw [List.length_append, List.length_cons, List.length_singleton]
          rcases List.mem_cons.mp ha with rfl | ha
          · omega
          · rcases List.mem_cons.mp ha with rfl | ha
            · omega
            · have hbounds := hreads a ha
              omega
      · rw [if_neg hspecial] at h ⊢
        obtain ⟨hquote, hback⟩ := not_or.mp hspecial
        obtain ⟨hchar, htail⟩ := h
        obtain ⟨reads, hloop, hreads⟩ := @ih fuel (d + 1) (p + 1) hrest htail hlt
        rw [hchar, if_neg (not_or.mpr ⟨hc, hquote⟩), if_neg hback, hloop]
        refine ⟨p :: reads, rfl, ?_⟩
        intro a ha
        rw [List.length_append, List.length_singleton]
        rcases List.mem_cons.mp ha with rfl | ha
        · omega
        · have hbounds := hreads a ha
          omega

/-- **Unescaping undoes escaping.** Of the literal of a string, `str_unescape` returns the string, whatever stands behind
it in memory, and it reads nothing behind the closing quote. -/
theorem unescape_quote (hnul : (0 : UInt8) ∉ s) (h : Chars mem p (q.quote s)) :
    strUnescape memory (q.quote s) q.char = .ok s
      ∧ ∃ fuel reads, unescape mem memory q.char fuel p = some (s, reads)
        ∧ ∀ a ∈ reads, p ≤ a ∧ a < p + (q.quote s).length := by
  refine ⟨Quote.strUnescape_escape memory hnul [], ?_⟩
  obtain ⟨reads, hloop, hreads⟩ := @unescapeLoop_escape mem memory (s.length + 1) 0 (p + 1) q s hnul h.2
    (Nat.lt_succ_self _)
  refine ⟨s.length + 1, reads, ?_, ?_⟩
  · rw [unescape, hloop]
    exact congrArg (fun str => some (str, reads)) (Quote.terminated_eq hnul)
  · intro a ha
    have hbounds := hreads a ha
    rw [Quote.quote, List.length_cons, List.length_append, List.length_singleton]
    omega

/-- The string `it's` at address 5. -/
def itsMem : Int → UInt8 := fun a => ([39, 105, 116, 92, 39, 115, 39] : List UInt8).getD (a - 5).toNat 0

theorem unescape_quote_its :
    strUnescape (fun _ => 7) (Quote.single.quote [105, 116, 39, 115]) Quote.single.char = .ok [105, 116, 39, 115]
      ∧ ∃ fuel reads,
        unescape itsMem (fun _ => 7) Quote.single.char fuel 5 = some ([105, 116, 39, 115], reads)
          ∧ ∀ a ∈ reads, (5 : Int) ≤ a ∧ a < 5 + (Quote.single.quote [105, 116, 39, 115]).length :=
  unescape_quote (by decide) ⟨rfl, rfl, rfl, rfl, rfl, rfl, rfl, trivial⟩

/-! ### The function of the scanner -/

/-- On a text with its terminator, the loop finds what the scanner's finds on the text alone. -/
theorem unescapeLoop_of_scanner {quote : UInt8} {str : List UInt8} (h : Chars mem p s)
    (hend : mem (p + s.length) = 0) (hstr : strUnescapeLoop memory quote d s = .ok str) :
    ∃ fuel reads, unescapeLoop mem memory quote fuel p d = some (str, reads) := by
  induction hn : s.length using Nat.strong_induction_on generalizing s p d str with
  | _ n ih =>
      subst hn
      cases s with
      | nil =>
          cases hstr
          rw [List.length_nil, Int.natCast_zero, Int.add_zero] at hend
          exact ⟨1, [p], if_pos (.inl hend)⟩
      | cons c s =>
          obtain ⟨hchar, htail⟩ := h
          rw [List.length_cons] at hend
          unfold strUnescapeLoop at hstr
          by_cases hstop : c = 0 ∨ c = quote
          · rw [if_pos hstop] at hstr
            cases hstr
            exact ⟨1, [p], if_pos (by rwa [hchar])⟩
          · rw [if_neg hstop] at hstr
            by_cases hback : c = 92
            · rw [if_pos hback] at hstr
              cases s with
              | nil => cases hstr
              | cons e s =>
                  obtain ⟨hnext, htail⟩ := htail
                  obtain ⟨rest, hrest, hstr⟩ := bind_eq_ok.mp hstr
                  rw [List.length_cons] at hend
                  obtain ⟨fuel, reads, hloop⟩ := ih s.length (by simp only [List.length_cons]; omega)
                    (p := p + 2) (by rwa [show p + 2 = p + 1 + 1 by omega])
                    (by rw [← hend]; congr 1; omega) hrest rfl
                  refine ⟨fuel + 1, p :: (p + 1) :: reads, ?_⟩
                  rw [unescapeLoop, hchar, if_neg hstop, if_pos hback, hnext, hloop]
                  split at hstr
                  · rename_i heq
                    cases hstr
                    rw [if_pos heq]
                    rfl
                  · rename_i heq
                    rw [if_neg heq]
                    split at hstr
                    · rename_i hkeep
                      cases hstr
                      rw [if_pos hkeep]
                      rfl
                    · rename_i hother
                      cases hstr
                      rw [if_neg hother]
                      rfl
            · rw [if_neg hback] at hstr
              obtain ⟨rest, hrest, hstr⟩ := bind_eq_ok.mp hstr
              cases hstr
              obtain ⟨fuel, reads, hloop⟩ := ih s.length (Nat.lt_succ_self _) htail
                (by rw [← hend]; congr 1; omega) hrest rfl
              refine ⟨fuel + 1, p :: reads, ?_⟩
              rw [unescapeLoop, hchar, if_neg hstop, if_neg hback, hloop]
              rfl

end Scroller.Hquery

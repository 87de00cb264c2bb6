import Scroller.Lib.Brackets
import Scroller.Proof.BytecodeLoop

/-!
# Matching loop tokens

`bc_prepare` with the number it returns and the tokens as it leaves them. It finds the two ends of every loop
and both errors of a word of brackets, except for loops that are still open at the end: they count as success.
-/

namespace Scroller.Execute

open Brackets

/-- The loop of `bc_prepare` over the indices to come. -/
def prepareLoop : List Nat → List BcNode × List Nat → List BcNode × Nat
  | [], s => (s.1, 0)
  | i :: is, s =>
      match prepareStep s i with
      | .error .bytecodeStackOverflow => (s.1, 1)
      | .error _ => (s.1, 2)
      | .ok s => prepareLoop is s

/-- `bc_prepare`: the tokens behind it and what it returns. -/
def bcPrepareResult (tokens : List BcNode) : List BcNode × Nat :=
  prepareLoop (List.range tokens.length) (tokens, [])

/-- How a token changes the number of open loops. -/
def loopLevel : BcNode → Int
  | .loopBegin _ => 1
  | .loopEnd _ => -1
  | _ => 0

/-- What the documentation of `bc_prepare` says. -/
structure PreparesLoops (tokens : List BcNode) : Prop where
  succeeds : (bcPrepareResult tokens).2 = 0 ↔ Balanced loopLevel stacksz tokens
  overflows : (bcPrepareResult tokens).2 = 1 ↔ TooDeep loopLevel stacksz tokens
  unbalanced : (bcPrepareResult tokens).2 = 2
    ↔ ¬ Balanced loopLevel stacksz tokens ∧ ¬ TooDeep loopLevel stacksz tokens
  begins : (bcPrepareResult tokens).2 = 0 → ∀ i v, tokens[i]? = some (.loopBegin v) →
    ∃ j v', tokens[j]? = some (.loopEnd v') ∧ Matches loopLevel tokens i j
      ∧ (bcPrepareResult tokens).1[i]? = some (.loopBegin (j + 1))
  ends : (bcPrepareResult tokens).2 = 0 → ∀ j v, tokens[j]? = some (.loopEnd v) →
    ∃ i v', tokens[i]? = some (.loopBegin v') ∧ Matches loopLevel tokens i j
      ∧ (bcPrepareResult tokens).1[j]? = some (.loopEnd i)
  kept : ∀ (i : Nat) (x : BcNode), tokens[i]? = some x → isLoop x = false → (bcPrepareResult tokens).1[i]? = some x

/-! ### One step -/

section

variable {tokens : List BcNode} {s s' : List BcNode × List Nat} {k : Nat}

/-- A loop that is open in front of `k`, with `m` loops around it. -/
structure OpenLoop (tokens : List BcNode) (k m p : Nat) : Prop where
  lt : p < k
  begins : ∃ v, tokens[p]? = some (.loopBegin v)
  height_eq : height loopLevel tokens p = m
  inside : ∀ j, p < j → j ≤ k → (m : Int) < height loopLevel tokens j

/-- The stack holds the open loops, the innermost first. -/
def OpenLoops (tokens : List BcNode) (k : Nat) : List Nat → Prop
  | [] => True
  | p :: stack => OpenLoop tokens k stack.length p ∧ OpenLoops tokens k stack

/-- What holds in front of the token at `k`: every loop so far is open or has both its values. -/
structure Scanned (tokens : List BcNode) (k : Nat) (s : List BcNode × List Nat) : Prop where
  within : Within loopLevel stacksz tokens k
  depth : height loopLevel tokens k = s.2.length
  stack : OpenLoops tokens k s.2
  rest : ∀ j ≥ k, s.1[j]? = tokens[j]?
  begins : ∀ i < k, ∀ v, tokens[i]? = some (.loopBegin v) → i ∈ s.2 ∨
    ∃ j < k, ∃ v', tokens[j]? = some (.loopEnd v') ∧ Matches loopLevel tokens i j
      ∧ s.1[i]? = some (.loopBegin (j + 1))
  ends : ∀ j < k, ∀ v, tokens[j]? = some (.loopEnd v) →
    ∃ i v', tokens[i]? = some (.loopBegin v') ∧ Matches loopLevel tokens i j
      ∧ s.1[j]? = some (.loopEnd i)
  kept : ∀ (i : Nat) (x : BcNode), tokens[i]? = some x → isLoop x = false → s.1[i]? = some x

theorem scanned_zero (tokens : List BcNode) : Scanned tokens 0 (tokens, []) := by
  refine {
    within := within_zero
    depth := rfl
    stack := trivial
    rest := fun _ _ => rfl
    begins := ?_
    ends := ?_
    kept := fun _ _ hx _ => hx }
  · intro i hi
    exact absurd hi (Nat.not_lt_zero i)
  · intro j hj
    exact absurd hj (Nat.not_lt_zero j)

theorem OpenLoop.succ {m p : Nat} (h : OpenLoop tokens k m p)
    (hheight : (m : Int) < height loopLevel tokens (k + 1)) : OpenLoop tokens (k + 1) m p := by
  refine { lt := Nat.lt_succ_of_lt h.lt, begins := h.begins, height_eq := h.height_eq, inside := ?_ }
  intro j hpj hj
  rcases Nat.lt_or_eq_of_le hj with hlt | rfl
  · exact h.inside j hpj (Nat.le_of_lt_succ hlt)
  · exact hheight

theorem OpenLoops.succ {stack : List Nat} (h : OpenLoops tokens k stack)
    (hheight : (stack.length : Int) ≤ height loopLevel tokens (k + 1)) :
    OpenLoops tokens (k + 1) stack := by
  induction stack with
  | nil => trivial
  | cons p stack ih =>
      rw [List.length_cons] at hheight
      exact ⟨h.1.succ (by omega), ih h.2 (by omega)⟩

theorem OpenLoops.lt_of_mem {stack : List Nat} {p : Nat} (h : OpenLoops tokens k stack)
    (hmem : p ∈ stack) : p < k := by
  induction stack with
  | nil => cases hmem
  | cons q stack ih =>
      rcases List.mem_cons.mp hmem with rfl | hmem
      · exact h.1.lt
      · exact ih h.2 hmem

theorem Scanned.skip {x : BcNode} (h : Scanned tokens k s) (hx : tokens[k]? = some x)
    (hloop : isLoop x = false) : Scanned tokens (k + 1) s := by
  have hlevel : loopLevel x = 0 := by
    cases x <;> first | rfl | cases hloop
  have hheight : height loopLevel tokens (k + 1) = s.2.length := by
    rw [height_succ hx, hlevel, h.depth, Int.add_zero]
  have hbound := h.within k (Nat.le_refl k)
  rw [h.depth] at hbound
  refine {
    within := h.within.succ (by omega) (by omega)
    depth := hheight
    stack := h.stack.succ (by omega)
    rest := fun j hj => h.rest j (by omega)
    begins := ?_
    ends := ?_
    kept := h.kept }
  · intro i hi v hv
    rcases Nat.lt_or_eq_of_le (Nat.le_of_lt_succ hi) with hlt | rfl
    · refine (h.begins i hlt v hv).imp_right ?_
      rintro ⟨j, hj, hmatch⟩
      exact ⟨j, Nat.lt_succ_of_lt hj, hmatch⟩
    · rw [hx] at hv
      cases hv
      cases hloop
  · intro j hj v hv
    rcases Nat.lt_or_eq_of_le (Nat.le_of_lt_succ hj) with hlt | rfl
    · exact h.ends j hlt v hv
    · rw [hx] at hv
      cases hv
      cases hloop

/-- `LOOP_BEGIN` goes onto the stack. -/
theorem Scanned.push {v : Nat} (h : Scanned tokens k s) (hx : tokens[k]? = some (.loopBegin v))
    (hroom : s.2.length ≠ stacksz) : Scanned tokens (k + 1) (s.1, k :: s.2) := by
  have hheight : height loopLevel tokens (k + 1) = s.2.length + 1 := by
    rw [height_succ hx, h.depth]
    rfl
  have hbound := h.within k (Nat.le_refl k)
  rw [h.depth] at hbound
  have hopen : OpenLoop tokens (k + 1) s.2.length k := by
    refine { lt := Nat.lt_succ_self k, begins := ⟨v, hx⟩, height_eq := h.depth, inside := ?_ }
    intro j hkj hj
    cases Nat.le_antisymm hj hkj
    omega
  refine {
    within := h.within.succ (by omega) (by omega)
    depth := hheight
    stack := ⟨hopen, h.stack.succ (by omega)⟩
    rest := fun j hj => h.rest j (by omega)
    begins := ?_
    ends := ?_
    kept := h.kept }
  · intro i hi v' hv
    rcases Nat.lt_or_eq_of_le (Nat.le_of_lt_succ hi) with hlt | rfl
    · rcases h.begins i hlt v' hv with hmem | ⟨j, hj, hmatch⟩
      · exact Or.inl (List.mem_cons_of_mem k hmem)
      · exact Or.inr ⟨j, Nat.lt_succ_of_lt hj, hmatch⟩
    · exact Or.inl List.mem_cons_self
  · intro j hj v' hv
    rcases Nat.lt_or_eq_of_le (Nat.le_of_lt_succ hj) with hlt | rfl
    · exact h.ends j hlt v' hv
    · rw [hx] at hv
      cases hv

/-- `LOOP_END` belongs to the loop on top of the stack. -/
theorem Scanned.pop {v p : Nat} {stack : List Nat} (h : Scanned tokens k s)
    (hx : tokens[k]? = some (.loopEnd v)) (hstack : s.2 = p :: stack) :
    Scanned tokens (k + 1) ((s.1.set p (.loopBegin (k + 1))).set k (.loopEnd p), stack) := by
  have hheight : height loopLevel tokens (k + 1) = stack.length := by
    rw [height_succ hx, h.depth, hstack, List.length_cons]
    change ((stack.length + 1 : Nat) : Int) + -1 = _
    omega
  have hbound := h.within k (Nat.le_refl k)
  rw [h.depth, hstack, List.length_cons] at hbound
  have hopen := h.stack
  rw [hstack] at hopen
  obtain ⟨hp, hbelow⟩ := hopen
  obtain ⟨vp, hvp⟩ := hp.begins
  have hmatch : Matches loopLevel tokens p k := by
    refine { lt := hp.lt, closes := by rw [hheight, hp.height_eq], inside := ?_ }
    intro j hpj hj
    rw [hp.height_eq]
    exact hp.inside j hpj hj
  have hk : k < s.1.length := by
    have hsame := h.rest k (Nat.le_refl k)
    rw [hx] at hsame
    exact (List.getElem?_eq_some_iff.mp hsame).1
  have hne : k ≠ p := Nat.ne_of_gt hp.lt
  have hother : ∀ i, i ≠ p → i ≠ k →
      ((s.1.set p (.loopBegin (k + 1))).set k (.loopEnd p))[i]? = s.1[i]? := by
    intro i hip hik
    rw [List.getElem?_set_ne (Ne.symm hik), List.getElem?_set_ne (Ne.symm hip)]
  have hfirst : ((s.1.set p (.loopBegin (k + 1))).set k (.loopEnd p))[p]?
      = some (.loopBegin (k + 1)) := by
    rw [List.getElem?_set_ne hne, List.getElem?_set_self (Nat.lt_trans hp.lt hk)]
  have hlast : ((s.1.set p (.loopBegin (k + 1))).set k (.loopEnd p))[k]? = some (.loopEnd p) := by
    rw [List.getElem?_set_self (by rwa [List.length_set])]
  refine {
    within := h.within.succ (by omega) (by omega)
    depth := hheight
    stack := hbelow.succ (by omega)
    rest := ?_
    begins := ?_
    ends := ?_
    kept := ?_ }
  · intro j hj
    have hlt := hp.lt
    rw [hother j (by omega) (by omega)]
    exact h.rest j (by omega)
  · intro i hi v' hv
    by_cases hip : i = p
    · subst hip
      exact Or.inr ⟨k, Nat.lt_succ_self k, v, hx, hmatch, hfirst⟩
    · have hik : i ≠ k := by
        rintro rfl
        rw [hx] at hv
        cases hv
      rw [hother i hip hik]
      rcases h.begins i (by omega) v' hv with hmem | ⟨j, hj, hfound⟩
      · rw [hstack] at hmem
        exact Or.inl ((List.mem_cons.mp hmem).resolve_left hip)
      · exact Or.inr ⟨j, Nat.lt_succ_of_lt hj, hfound⟩
  · intro j hj v' hv
    by_cases hjk : j = k
    · subst hjk
      exact ⟨p, vp, hvp, hmatch, hlast⟩
    · have hjp : j ≠ p := by
        rintro rfl
        rw [hvp] at hv
        cases hv
      rw [hother j hjp hjk]
      exact h.ends j (by omega) v' hv
  · intro i x hi hloop
    have hip : i ≠ p := by
      rintro rfl
      rw [hvp] at hi
      cases hi
      cases hloop
    have hik : i ≠ k := by
      rintro rfl
      rw [hx] at hi
      cases hi
      cases hloop
    rw [hother i hip hik]
    exact h.kept i x hi hloop

/-- A step that does not return goes on with the next token, one that does has found an error. -/
theorem Scanned.step (h : Scanned tokens k s) (hk : k < tokens.length) :
    (∃ s', prepareStep s k = .ok s' ∧ Scanned tokens (k + 1) s')
      ∨ (prepareStep s k = .error .bytecodeStackOverflow ∧ TooDeep loopLevel stacksz tokens)
      ∨ (prepareStep s k = .error .bytecodeUnbalancedStack ∧ ClosedEarly loopLevel stacksz tokens) := by
  have hx : tokens[k]? = some tokens[k] := List.getElem?_eq_getElem hk
  have hsame := h.rest k (Nat.le_refl k)
  rw [hx] at hsame
  generalize tokens[k] = x at hx hsame
  unfold prepareStep
  rw [hsame]
  cases x with
  | loopBegin v =>
      dsimp only
      by_cases hfull : s.2.length = stacksz
      · rw [if_pos hfull]
        refine Or.inr (Or.inl ⟨rfl, k, h.within, ?_⟩)
        rw [height_succ hx, h.depth, hfull]
        exact Int.lt_succ _
      · rw [if_neg hfull]
        exact Or.inl ⟨_, rfl, h.push hx hfull⟩
  | loopEnd v =>
      dsimp only
      cases hstack : s.2 with
      | nil =>
          refine Or.inr (Or.inr ⟨rfl, k, h.within, ?_⟩)
          rw [height_succ hx, h.depth, hstack]
          change ((0 : Nat) : Int) + -1 < 0
          decide
      | cons p stack => exact Or.inl ⟨_, rfl, h.pop hx hstack⟩
  | _ => exact Or.inl ⟨_, rfl, h.skip hx rfl⟩

/-! ### The whole scan -/

/-- What the scan ends with. -/
def PrepareEnds (tokens : List BcNode) (result : List BcNode × Nat) : Prop :=
  (result.2 = 0 ∧ ∃ stack, Scanned tokens tokens.length (result.1, stack))
    ∨ (result.2 = 1 ∧ TooDeep loopLevel stacksz tokens)
    ∨ (result.2 = 2 ∧ ClosedEarly loopLevel stacksz tokens)

theorem prepareLoop_ends {n : Nat} (h : Scanned tokens k s) (hn : k + n = tokens.length) :
    PrepareEnds tokens (prepareLoop (List.range' k n) s)
      ∧ ∀ (i : Nat) (x : BcNode), tokens[i]? = some x → isLoop x = false →
        (prepareLoop (List.range' k n) s).1[i]? = some x := by
  induction n generalizing k s with
  | zero =>
      cases hn
      exact ⟨Or.inl ⟨rfl, s.2, h⟩, h.kept⟩
  | succ n ih =>
      rw [List.range'_succ, prepareLoop]
      rcases h.step (by omega) with ⟨s', hstep, hnext⟩ | ⟨hstep, hdeep⟩ | ⟨hstep, hearly⟩
      · rw [hstep]
        exact ih hnext (by omega)
      · rw [hstep]
        exact ⟨Or.inr (Or.inl ⟨rfl, hdeep⟩), h.kept⟩
      · rw [hstep]
        exact ⟨Or.inr (Or.inr ⟨rfl, hearly⟩), h.kept⟩

theorem bcPrepareResult_ends (tokens : List BcNode) :
    PrepareEnds tokens (bcPrepareResult tokens)
      ∧ ∀ (i : Nat) (x : BcNode), tokens[i]? = some x → isLoop x = false →
        (bcPrepareResult tokens).1[i]? = some x := by
  unfold bcPrepareResult
  rw [List.range_eq_range']
  exact prepareLoop_ends (scanned_zero tokens) (Nat.zero_add _)

theorem prepareStep_error {s : List BcNode × List Nat} {i : Nat} {status : ScrcStatus}
    (h : prepareStep s i = .error status) :
    status = .bytecodeStackOverflow ∨ status = .bytecodeUnbalancedStack := by
  unfold prepareStep at h
  split at h
  · split at h
    · cases h
      exact Or.inl rfl
    · cases h
  · split at h
    · cases h
      exact Or.inr rfl
    · cases h
  · cases h

/-- The statuses of `execute_cmd` belong to the numbers that `bc_prepare` returns. -/
theorem prepareLoop_eq (is : List Nat) (s : List BcNode × List Nat) :
    (do let (tokens, _) ← is.foldlM prepareStep s
        return tokens : Except ScrcStatus (List BcNode))
      = match prepareLoop is s with
        | (tokens, 0) => .ok tokens
        | (_, 1) => .error .bytecodeStackOverflow
        | (_, _) => .error .bytecodeUnbalancedStack := by
  induction is generalizing s with
  | nil => rfl
  | cons i is ih =>
      rw [List.foldlM_cons, prepareLoop]
      cases hstep : prepareStep s i with
      | ok s' => exact ih s'
      | error status =>
          rcases prepareStep_error hstep with rfl | rfl
          · rfl
          · rfl

theorem bcPrepare_eq (tokens : List BcNode) :
    bcPrepare tokens = match bcPrepareResult tokens with
      | (tokens, 0) => .ok tokens
      | (_, 1) => .error .bytecodeStackOverflow
      | (_, _) => .error .bytecodeUnbalancedStack :=
  prepareLoop_eq _ _

/-- **The loops are prepared as documented** exactly where none is left open at the end. -/
theorem preparesLoops_iff (tokens : List BcNode) :
    PreparesLoops tokens ↔ ¬ LeftOpen loopLevel stacksz tokens := by
  obtain ⟨hends, hkept⟩ := bcPrepareResult_ends tokens
  constructor
  · rintro hprepares ⟨hwithin, hopen⟩
    rcases hends with ⟨hzero, -⟩ | ⟨-, hdeep⟩ | ⟨-, hearly⟩
    · have hclosed := (hprepares.succeeds.mp hzero).2
      omega
    · exact hdeep.not_within hwithin
    · exact hearly.not_within hwithin
  · intro hleft
    rcases hends with ⟨hzero, stack, hscanned⟩ | ⟨hone, hdeep⟩ | ⟨htwo, hearly⟩
    · have hclosed : height loopLevel tokens tokens.length = 0 := by
        have hnot : ¬ 0 < height loopLevel tokens tokens.length := fun hopen =>
          hleft ⟨hscanned.within, hopen⟩
        have hlow := (hscanned.within tokens.length (Nat.le_refl _)).1
        omega
      have hbalanced : Balanced loopLevel stacksz tokens := ⟨hscanned.within, hclosed⟩
      have hempty : stack = [] := by
        have hdepth := hscanned.depth
        rw [hclosed] at hdepth
        change (0 : Int) = (stack.length : Int) at hdepth
        exact List.length_eq_zero_iff.mp (by omega)
      subst hempty
      refine {
        succeeds := iff_of_true hzero hbalanced
        overflows := iff_of_false (by omega) (fun hdeep => hdeep.not_within hscanned.within)
        unbalanced := iff_of_false (by omega) (fun h => h.1 hbalanced)
        begins := ?_
        ends := ?_
        kept := hkept }
      · intro _ i v hi
        have hlt := (List.getElem?_eq_some_iff.mp hi).1
        rcases hscanned.begins i hlt v hi with hmem | ⟨j, -, v', hj, hmatch, hvalue⟩
        · cases hmem
        · exact ⟨j, v', hj, hmatch, hvalue⟩
      · intro _ j v hj
        exact hscanned.ends j (List.getElem?_eq_some_iff.mp hj).1 v hj
    · exact {
        succeeds := iff_of_false (by omega) (fun h => hdeep.not_within h.1)
        overflows := iff_of_true hone hdeep
        unbalanced := iff_of_false (by omega) (fun h => h.2 hdeep)
        begins := by omega
        ends := by omega
        kept := hkept }
    · exact {
        succeeds := iff_of_false (by omega) (fun h => hearly.not_within h.1)
        overflows := iff_of_false (by omega) hearly.not_tooDeep
        unbalanced := iff_of_true htwo ⟨fun h => hearly.not_within h.1, hearly.not_tooDeep⟩
        begins := by omega
        ends := by omega
        kept := hkept }

/-- A loop that is not closed passes. -/
theorem open_loop_passes : ¬ PreparesLoops [.loopBegin 0] := by
  intro hprepares
  have hbalanced := hprepares.succeeds.mp (by decide)
  have hheight : height loopLevel [.loopBegin 0] [BcNode.loopBegin 0].length = 1 := by decide
  rw [hbalanced.2] at hheight
  cases hheight

end

end Scroller.Execute

import Mathlib.Data.List.Basic

/-!
# Runs of a deterministic machine

A machine answers one input at a time and may fail; a run feeds it a list of inputs and keeps the
history of what was asked and answered. The rules below are the only inductions over runs: a
property of the history and the state that every step keeps holds after the run, and a machine that
never fails under the property never fails on the run.
-/

namespace Machine

variable {σ ι ω ε : Type*}

/-- Feeds the inputs one after the other; the first failure ends the run. -/
def exec (step : σ → ι → Except ε (σ × ω)) : σ → List ι → Except ε (σ × List (ι × ω))
  | s, [] => .ok (s, [])
  | s, i :: is =>
      match step s i with
      | .error e => .error e
      | .ok (s', o) =>
          match exec step s' is with
          | .error e => .error e
          | .ok (s'', hist) => .ok (s'', (i, o) :: hist)

variable {step : σ → ι → Except ε (σ × ω)}

@[simp]
theorem exec_nil (s : σ) : exec step s [] = .ok (s, []) := rfl

theorem exec_cons_eq_ok {s s'' : σ} {i : ι} {is : List ι} {hist : List (ι × ω)} :
    exec step s (i :: is) = .ok (s'', hist) ↔
      ∃ s' o rest, step s i = .ok (s', o) ∧ exec step s' is = .ok (s'', rest)
        ∧ hist = (i, o) :: rest := by
  constructor
  · intro h
    rw [exec] at h
    split at h
    · cases h
    · rename_i s' o hstep
      split at h
      · cases h
      · rename_i s₂ rest hrest
        cases h
        exact ⟨s', o, rest, hstep, hrest, rfl⟩
  · rintro ⟨s', o, rest, hstep, hrest, rfl⟩
    simp only [exec, hstep, hrest]

theorem exec_append {s s' s'' : σ} {is js : List ι} {hist rest : List (ι × ω)}
    (hleft : exec step s is = .ok (s', hist)) (hright : exec step s' js = .ok (s'', rest)) :
    exec step s (is ++ js) = .ok (s'', hist ++ rest) := by
  induction is generalizing s hist with
  | nil =>
      cases hleft
      exact hright
  | cons i is ih =>
      obtain ⟨s₁, o, mid, hstep, hmid, rfl⟩ := exec_cons_eq_ok.mp hleft
      exact exec_cons_eq_ok.mpr ⟨s₁, o, mid ++ rest, hstep, ih hmid, rfl⟩

theorem exec_append_eq_ok {s s'' : σ} {is js : List ι} {hist : List (ι × ω)}
    (h : exec step s (is ++ js) = .ok (s'', hist)) :
    ∃ s' left right, exec step s is = .ok (s', left) ∧ exec step s' js = .ok (s'', right)
      ∧ hist = left ++ right := by
  induction is generalizing s hist with
  | nil => exact ⟨s, [], hist, rfl, h, rfl⟩
  | cons i is ih =>
      obtain ⟨s₁, o, mid, hstep, hmid, rfl⟩ := exec_cons_eq_ok.mp h
      obtain ⟨s', left, right, hleft, hright, rfl⟩ := ih hmid
      exact ⟨s', (i, o) :: left, right, exec_cons_eq_ok.mpr ⟨s₁, o, left, hstep, hleft, rfl⟩,
        hright, rfl⟩

theorem map_fst_of_exec {s s' : σ} {is : List ι} {hist : List (ι × ω)}
    (h : exec step s is = .ok (s', hist)) : hist.map Prod.fst = is := by
  induction is generalizing s hist with
  | nil =>
      cases h
      rfl
  | cons i is ih =>
      obtain ⟨s₁, o, rest, -, hrest, rfl⟩ := exec_cons_eq_ok.mp h
      rw [List.map_cons, ih hrest]

/-- What holds in front of every input of a run. -/
def Along (step : σ → ι → Except ε (σ × ω)) (P : σ → ι → Prop) (s : σ) (is : List ι) : Prop :=
  ∀ before i after s' hist, is = before ++ i :: after → exec step s before = .ok (s', hist) → P s' i

/-- What holds of every answered input of a run. -/
def AlongAnswers (step : σ → ι → Except ε (σ × ω)) (P : σ → ι → ω → Prop) (s : σ) (is : List ι) : Prop :=
  Along step (fun s i => ∀ s' o, step s i = .ok (s', o) → P s i o) s is

/-- What holds in every state of a run. -/
def Throughout (step : σ → ι → Except ε (σ × ω)) (P : σ → Prop) (s : σ) (is : List ι) : Prop :=
  ∀ before after s' hist, is = before ++ after → exec step s before = .ok (s', hist) → P s'

theorem Throughout.along {P : σ → Prop} {s : σ} {is : List ι} (h : Throughout step P s is) :
    Along step (fun s _ => P s) s is :=
  fun before i after s' hist hsplit hexec => h before (i :: after) s' hist hsplit hexec

theorem Throughout.final {P : σ → Prop} {s s' : σ} {is : List ι} {hist : List (ι × ω)} (h : Throughout step P s is)
    (hexec : exec step s is = .ok (s', hist)) : P s' := h is [] s' hist (List.append_nil is).symm hexec

theorem Throughout.of_append {P : σ → Prop} {s : σ} {is js : List ι} (h : Throughout step P s (is ++ js)) :
    Throughout step P s is := by
  intro before after s' hist hsplit hexec
  exact h before (after ++ js) s' hist (by rw [hsplit, List.append_assoc]) hexec

theorem along_nil (P : σ → ι → Prop) (s : σ) : Along step P s [] := by
  intro before i after s' hist hsplit
  cases before with
  | nil => cases hsplit
  | cons j before => cases hsplit

theorem along_singleton {P : σ → ι → Prop} {s : σ} {i : ι} (h : P s i) : Along step P s [i] := by
  intro before j after s' hist hsplit hexec
  cases before with
  | nil =>
      cases hsplit
      cases hexec
      exact h
  | cons k before =>
      obtain ⟨-, hsplit⟩ := List.cons.inj hsplit
      cases before <;> cases hsplit

theorem along_cons {P : σ → ι → Prop} {s s' : σ} {i : ι} {is : List ι} {o : ω}
    (hstep : step s i = .ok (s', o)) :
    Along step P s (i :: is) ↔ P s i ∧ Along step P s' is := by
  constructor
  · intro h
    refine ⟨h [] i is s [] rfl rfl, ?_⟩
    intro before j after s'' hist hsplit hexec
    exact h (i :: before) j after s'' ((i, o) :: hist) (by rw [hsplit]; rfl)
      (exec_cons_eq_ok.mpr ⟨s', o, hist, hstep, hexec, rfl⟩)
  · rintro ⟨hhead, htail⟩ before j after s'' hist hsplit hexec
    cases before with
    | nil =>
        cases hsplit
        cases hexec
        exact hhead
    | cons k before =>
        cases hsplit
        obtain ⟨s₁, o₁, rest, hone, hrest, rfl⟩ := exec_cons_eq_ok.mp hexec
        rw [hstep] at hone
        cases hone
        exact htail before j after s'' rest rfl hrest

theorem throughout_nil {P : σ → Prop} {s : σ} : Throughout step P s [] ↔ P s := by
  constructor
  · intro h
    exact h [] [] s [] rfl rfl
  · intro h before after s' hist hsplit hexec
    obtain ⟨rfl, rfl⟩ := List.nil_eq_append_iff.mp hsplit
    cases hexec
    exact h

theorem throughout_cons {P : σ → Prop} {s s' : σ} {i : ι} {is : List ι} {o : ω} (hstep : step s i = .ok (s', o)) :
    Throughout step P s (i :: is) ↔ P s ∧ Throughout step P s' is := by
  constructor
  · intro h
    refine ⟨h [] (i :: is) s [] rfl rfl, fun before after s'' hist hsplit hexec => ?_⟩
    exact h (i :: before) after s'' ((i, o) :: hist) (by rw [hsplit]; rfl)
      (exec_cons_eq_ok.mpr ⟨s', o, hist, hstep, hexec, rfl⟩)
  · rintro ⟨hhead, htail⟩ before after s'' hist hsplit hexec
    cases before with
    | nil =>
        cases hexec
        exact hhead
    | cons j before =>
        cases hsplit
        obtain ⟨s₁, o₁, rest, hone, hrest, rfl⟩ := exec_cons_eq_ok.mp hexec
        rw [hstep] at hone
        cases hone
        exact htail before after s'' rest rfl hrest

theorem alongAnswers_cons {P : σ → ι → ω → Prop} {s s' : σ} {i : ι} {is : List ι} {o : ω}
    (hstep : step s i = .ok (s', o)) :
    AlongAnswers step P s (i :: is) ↔ P s i o ∧ AlongAnswers step P s' is := by
  unfold AlongAnswers
  rw [along_cons hstep]
  apply and_congr_left'
  constructor
  · exact fun h => h s' o hstep
  · intro h s'' o' hstep'
    rw [hstep] at hstep'
    cases hstep'
    exact h

/-- **The run rule.** What every answered step keeps holds after every run that answered. -/
theorem exec_invariant (P : List (ι × ω) → σ → Prop) (valid : ι → Prop) (past : List (ι × ω))
    (hstep : ∀ hist s i s' o, P hist s → valid i → step s i = .ok (s', o) →
      P (hist ++ [(i, o)]) s')
    {s s' : σ} {hist : List (ι × ω)} {is : List ι} (hstart : P past s)
    (hvalid : ∀ i ∈ is, valid i) (h : exec step s is = .ok (s', hist)) :
    P (past ++ hist) s' := by
  induction is generalizing s past hist with
  | nil =>
      cases h
      simpa using hstart
  | cons i is ih =>
      obtain ⟨s₁, o, rest, hone, hrest, rfl⟩ := exec_cons_eq_ok.mp h
      have hnext := ih _ (hstep past s i s₁ o hstart (hvalid i (by simp)) hone)
        (fun j hj => hvalid j (by simp [hj])) hrest
      simpa using hnext

/-- **The safety rule.** Where the property lets every valid input be answered or fail in an allowed
way, and answers keep it, every run of valid inputs ends with the property or with an allowed failure. -/
theorem exec_safety (P : List (ι × ω) → σ → Prop) (valid : ι → Prop) (allowed : ε → Prop)
    (past : List (ι × ω))
    (hstep : ∀ hist s i, P hist s → valid i →
      (∃ s' o, step s i = .ok (s', o) ∧ P (hist ++ [(i, o)]) s')
        ∨ ∃ e, step s i = .error e ∧ allowed e)
    {s : σ} {is : List ι} (hstart : P past s)
    (hvalid : ∀ i ∈ is, valid i) :
    (∃ s' hist, exec step s is = .ok (s', hist) ∧ P (past ++ hist) s')
      ∨ ∃ e, exec step s is = .error e ∧ allowed e := by
  induction is generalizing s past with
  | nil => exact Or.inl ⟨s, [], rfl, by simpa using hstart⟩
  | cons i is ih =>
      rcases hstep past s i hstart (hvalid i (by simp)) with ⟨s₁, o, hone, hP⟩ | ⟨e, hone, he⟩
      · rcases ih _ hP fun j hj => hvalid j (by simp [hj]) with ⟨s', rest, hrest, hfinal⟩ | ⟨e, hrest, he⟩
        · exact Or.inl ⟨s', (i, o) :: rest,
            exec_cons_eq_ok.mpr ⟨s₁, o, rest, hone, hrest, rfl⟩, by simpa using hfinal⟩
        · exact Or.inr ⟨e, by simp only [exec, hone, hrest], he⟩
      · exact Or.inr ⟨e, by simp only [exec, hone], he⟩

/-- **The progress rule.** Where the property lets every valid input be answered and is kept by the
answer, every run of valid inputs is answered to its end. -/
theorem exec_progress (P : List (ι × ω) → σ → Prop) (valid : ι → Prop) (past : List (ι × ω))
    (hstep : ∀ hist s i, P hist s → valid i →
      ∃ s' o, step s i = .ok (s', o) ∧ P (hist ++ [(i, o)]) s')
    {s : σ} {is : List ι} (hstart : P past s)
    (hvalid : ∀ i ∈ is, valid i) :
    ∃ s' hist, exec step s is = .ok (s', hist) ∧ P (past ++ hist) s' := by
  have hsafe := exec_safety P valid (fun _ : ε => False) past
    (fun hist s i hP hi => Or.inl (hstep hist s i hP hi)) hstart hvalid
  rcases hsafe with hok | ⟨e, -, hfalse⟩
  · exact hok
  · exact hfalse.elim

theorem along_congr (I : σ → Prop) (hkeep : ∀ s i s' o, I s → step s i = .ok (s', o) → I s') {P Q : σ → ι → Prop}
    (h : ∀ s i, I s → (P s i ↔ Q s i)) {s : σ} {is : List ι} (hstart : I s) :
    Along step P s is ↔ Along step Q s is := by
  have hreached : ∀ before s' hist, exec step s before = .ok (s', hist) → I s' := by
    intro before s' hist hexec
    exact exec_invariant (fun _ => I) (fun _ => True) [] (fun _ s i s' o hs _ hstep => hkeep s i s' o hs hstep) hstart
      (fun _ _ => trivial) hexec
  constructor
  · intro halong before i after s' hist hsplit hexec
    exact (h s' i (hreached before s' hist hexec)).mp (halong before i after s' hist hsplit hexec)
  · intro halong before i after s' hist hsplit hexec
    exact (h s' i (hreached before s' hist hexec)).mpr (halong before i after s' hist hsplit hexec)

/-! ### Abstraction -/

/-- **The abstraction rule.** Where every step is a step of another machine on what a function keeps of the
states, every run is a run of it. The steps may need a bound that later states pass on to the earlier ones. -/
theorem exec_map {τ : Type*} {step' : τ → ι → Except ε (τ × ω)} (f : σ → τ) (I B : σ → Prop)
    (hkeep : ∀ s i s' o, I s → step s i = .ok (s', o) → I s' ∧ (B s' → B s))
    (hstep : ∀ s i s' o, I s → B s → step s i = .ok (s', o) → step' (f s) i = .ok (f s', o))
    {s s' : σ} {is : List ι} {hist : List (ι × ω)} (hstart : I s) (hend : B s')
    (h : exec step s is = .ok (s', hist)) :
    exec step' (f s) is = .ok (f s', hist) ∧ I s' ∧ B s := by
  induction is generalizing s hist with
  | nil =>
      cases h
      exact ⟨rfl, hstart, hend⟩
  | cons i is ih =>
      obtain ⟨s₁, o, rest, hone, hrest, rfl⟩ := exec_cons_eq_ok.mp h
      obtain ⟨hnext, hback⟩ := hkeep s i s₁ o hstart hone
      obtain ⟨hexec, hfinal, hbound⟩ := ih hnext hrest
      have hbound := hback hbound
      exact ⟨exec_cons_eq_ok.mpr ⟨f s₁, o, rest, hstep s i s₁ o hstart hbound hone, hexec, rfl⟩, hfinal, hbound⟩

/-! ### Refinement -/

/-- **The lockstep rule.** Two machines that answer every input alike or fail alike from related states do so on
every run. The relation may look at the inputs to come. -/
theorem exec_lockstep {τ : Type*} {step' : τ → ι → Except ε (τ × ω)} (R : σ → τ → List ι → Prop)
    (hstep : ∀ s t i is, R s t (i :: is) →
      (∃ s' t' o, step s i = .ok (s', o) ∧ step' t i = .ok (t', o) ∧ R s' t' is)
        ∨ ∃ e, step s i = .error e ∧ step' t i = .error e)
    {s : σ} {t : τ} {is : List ι} (hstart : R s t is) :
    (∃ s' t' hist, exec step s is = .ok (s', hist) ∧ exec step' t is = .ok (t', hist) ∧ R s' t' [])
      ∨ ∃ e, exec step s is = .error e ∧ exec step' t is = .error e := by
  induction is generalizing s t with
  | nil => exact Or.inl ⟨s, t, [], rfl, rfl, hstart⟩
  | cons i is ih =>
      rcases hstep s t i is hstart with ⟨s₁, t₁, o, hone, hone', hrel⟩ | ⟨e, hone, hone'⟩
      · rcases ih hrel with ⟨s', t', hist, hexec, hexec', hend⟩ | ⟨e, hexec, hexec'⟩
        · exact Or.inl ⟨s', t', (i, o) :: hist, exec_cons_eq_ok.mpr ⟨s₁, o, hist, hone, hexec, rfl⟩,
            exec_cons_eq_ok.mpr ⟨t₁, o, hist, hone', hexec', rfl⟩, hend⟩
        · exact Or.inr ⟨e, by simp only [exec, hone, hexec], by simp only [exec, hone', hexec']⟩
      · exact Or.inr ⟨e, by simp only [exec, hone], by simp only [exec, hone']⟩

/-- A history is one of an abstract machine, whose steps are a relation between two states and an input
with its answer. -/
inductive Follows {α : Type*} (Step : α → ι → ω → α → Prop) : α → List (ι × ω) → α → Prop
  | nil {a : α} : Follows Step a [] a
  | cons {a a' a'' : α} {i : ι} {o : ω} {hist : List (ι × ω)} (hstep : Step a i o a')
      (hrest : Follows Step a' hist a'') : Follows Step a ((i, o) :: hist) a''

/-- **The refinement rule.** Where every allowed step from related states is answered as a step of the
abstract machine and ends in related states, every run of allowed inputs is answered as a run of it. -/
theorem exec_follows {α : Type*} {Step : α → ι → ω → α → Prop} (R : σ → α → Prop)
    (allowed : σ → ι → Prop)
    (hstep : ∀ s a i, R s a → allowed s i → ∃ s' o a', step s i = .ok (s', o) ∧ Step a i o a' ∧ R s' a')
    {s : σ} {a : α} {is : List ι} (hstart : R s a) (hallowed : Along step allowed s is) :
    ∃ s' hist a', exec step s is = .ok (s', hist) ∧ Follows Step a hist a' ∧ R s' a' := by
  induction is generalizing s a with
  | nil => exact ⟨s, [], a, rfl, .nil, hstart⟩
  | cons i is ih =>
      obtain ⟨s₁, o, a₁, hone, habs, hrel⟩ := hstep s a i hstart (hallowed [] i is s [] rfl rfl)
      obtain ⟨s', hist, a', hexec, hfollows, hend⟩ := ih hrel ((along_cons hone).mp hallowed).2
      exact ⟨s', (i, o) :: hist, a', exec_cons_eq_ok.mpr ⟨s₁, o, hist, hone, hexec, rfl⟩,
        .cons habs hfollows, hend⟩

/-- What every answered step from related states is to the abstract machine, every answered run is. -/
theorem follows_of_exec {α : Type*} {Step : α → ι → ω → α → Prop} (R : σ → α → Prop) (valid : ι → Prop)
    (hstep : ∀ s a i s' o, R s a → valid i → step s i = .ok (s', o) → ∃ a', Step a i o a' ∧ R s' a')
    {s s' : σ} {a : α} {is : List ι} {hist : List (ι × ω)} (hstart : R s a) (hvalid : ∀ i ∈ is, valid i)
    (h : exec step s is = .ok (s', hist)) : ∃ a', Follows Step a hist a' ∧ R s' a' := by
  induction is generalizing s a hist with
  | nil =>
      cases h
      exact ⟨a, .nil, hstart⟩
  | cons i is ih =>
      obtain ⟨s₁, o, rest, hone, hrest, rfl⟩ := exec_cons_eq_ok.mp h
      obtain ⟨a₁, habs, hrel⟩ := hstep s a i s₁ o hstart (hvalid i List.mem_cons_self) hone
      obtain ⟨a', hfollows, hend⟩ := ih hrel (fun j hj => hvalid j (List.mem_cons_of_mem _ hj)) hrest
      exact ⟨a', .cons habs hfollows, hend⟩

theorem Follows.of_append {α : Type*} {Step : α → ι → ω → α → Prop} {a a' : α} {left right : List (ι × ω)}
    (h : Follows Step a (left ++ right) a') : ∃ a₁, Follows Step a left a₁ ∧ Follows Step a₁ right a' := by
  induction left generalizing a with
  | nil => exact ⟨a, .nil, h⟩
  | cons entry left ih =>
      cases h with
      | cons hstep hrest =>
          obtain ⟨a₁, hleft, hright⟩ := ih hrest
          exact ⟨a₁, .cons hstep hleft, hright⟩

/-- What every allowed step has under an invariant that it keeps holds in front of every input of an allowed run. -/
theorem along_of_allowed {allowed P : σ → ι → Prop} (I : σ → Prop)
    (hstep : ∀ s i, I s → allowed s i → ∃ s' o, step s i = .ok (s', o) ∧ I s')
    (h : ∀ s i, I s → allowed s i → P s i) {s : σ} {is : List ι} (hstart : I s) (hallowed : Along step allowed s is) :
    Along step P s is := by
  induction is generalizing s with
  | nil => exact along_nil P s
  | cons i is ih =>
      have hhead := hallowed [] i is s [] rfl rfl
      obtain ⟨s', o, hone, hnext⟩ := hstep s i hstart hhead
      exact (along_cons hone).mpr ⟨h s i hstart hhead, ih hnext ((along_cons hone).mp hallowed).2⟩

end Machine

import Mathlib.Data.List.Range
import Scroller.Lib.Machine
import Scroller.Proof.Calculation
import Scroller.Proof.Ids

/-!
# The laws of sequences

Whatever is called in whatever order, a sequence stays inside its bounds and counts by its increment, as
long as the number behind the last value is one of 64 bits when the next value is asked for.
-/

namespace Scroller

namespace Sequence

/-! ### Runs -/

/-- A call on a page that holds a sequence. -/
inductive Op where
  | init (minval maxval startval increment : Int64) (cycle : Bool)
  | nextval
  | currval
  | setval (val : Int64) (isCalled : Bool)
  | setMinval (val : Int64)
  | setMaxval (val : Int64)
  | setIncrement (val : Int64)
  | setCycle (val : Bool)
deriving DecidableEq, Repr

/-- What a call returns: 1, or 0 with the value that it puts out, if any. -/
inductive Answer where
  | refused
  | done (outval : Option Int64)
deriving DecidableEq, Repr

/-- The answer of a setter. -/
def answer (s : Sequence) : Option Sequence → Sequence × Answer
  | none => (s, .refused)
  | some s' => (s', .done none)

def step (build : Build) (s : Sequence) : Op → Except Fault (Sequence × Answer)
  | .init minval maxval startval increment cycle =>
      return s.answer (sequenceInit minval maxval startval increment cycle)
  | .nextval => do
      match ← sequenceNextval build s with
      | none => return (s, .refused)
      | some (s', outval) => return (s', .done (some outval))
  | .currval =>
      match sequenceCurrval s with
      | none => return (s, .refused)
      | some outval => return (s, .done (some outval))
  | .setval val isCalled => return s.answer (sequenceSetval s val isCalled)
  | .setMinval val => return s.answer (sequenceSetMinval s val)
  | .setMaxval val => return s.answer (sequenceSetMaxval s val)
  | .setIncrement val => return s.answer (sequenceSetIncrement s val)
  | .setCycle val => return (sequenceSetCycle s val, .done none)

/-- What holds of a sequence at any time. -/
structure Valid (s : Sequence) : Prop where
  bounds : s.minVal.toInt < s.maxVal.toInt
  low : s.minVal.toInt ≤ s.lastVal.toInt
  high : s.lastVal.toInt ≤ s.maxVal.toInt
  increment : s.increment.toInt ≠ 0

variable {build : Build} {s s' : Sequence} {op : Op} {a : Answer}

/-! ### The next value -/

/-- The number behind the last value. -/
def succ (s : Sequence) : Int := s.lastVal.toInt + s.increment.toInt

/-- The sequence is used up. -/
def Past (s : Sequence) : Prop :=
  (0 < s.increment.toInt ∧ s.maxVal.toInt < s.succ) ∨ (s.increment.toInt < 0 ∧ s.succ < s.minVal.toInt)

instance (s : Sequence) : Decidable s.Past := inferInstanceAs (Decidable (_ ∨ _))

/-- Where a sequence starts over. -/
def restart (s : Sequence) : Int64 := if 0 < s.increment then s.minVal else s.maxVal

/-- The next value can be calculated. -/
def CanAdvance (s : Sequence) : Prop := s.isCalled ≠ 0 → InRange s.succ

/-- The test of a bound, as the function makes it and as the laws read it. -/
theorem bound_test {beyond past : Prop} [Decidable beyond] [Decidable past] (h : past ↔ beyond) (cycle : Int64)
    (again next : Option (Sequence × Int64)) :
    (if beyond then if cycle ≠ 0 then pure again else pure none else pure next : Except Fault _)
      = if past then if cycle = 0 then .ok none else .ok again else .ok next := by
  by_cases hpast : past
  · rw [if_pos (h.mp hpast), if_pos hpast]
    by_cases hcycle : cycle = 0
    · rw [if_pos hcycle, if_neg (not_not.mpr hcycle)]
      rfl
    · rw [if_neg hcycle, if_pos hcycle]
      rfl
  · rw [if_neg (fun hover => hpast (h.mpr hover)), if_neg hpast]
    rfl

theorem Valid.nextval_eq (hs : s.Valid) :
    sequenceNextval build s =
      if s.isCalled = 0 then .ok (some ({ s with isCalled := 1 }, s.lastVal))
      else if InRange s.succ then
        if s.Past then
          if s.cycle = 0 then .ok none else .ok (some ({ s with lastVal := s.restart }, s.restart))
        else .ok (some ({ s with lastVal := .ofInt s.succ }, .ofInt s.succ))
      else .error .signedOverflow := by
  have hinc := hs.increment
  rw [sequenceNextval, Build.assert_of _ (ne_zero_of_toInt hinc)]
  by_cases hcalled : s.isCalled = 0
  · rw [if_pos hcalled, if_neg (not_not.mpr hcalled)]
    rfl
  rw [if_neg hcalled, if_pos hcalled]
  by_cases hrange : InRange s.succ
  · have hadd : addInt64 s.lastVal s.increment = .ok (.ofInt s.succ) := addInt64_of_inRange hrange
    have hsucc : (Int64.ofInt s.succ).toInt = s.succ := Int64.toInt_ofInt_of_le hrange.1 hrange.2
    have hpos : 0 < s.increment ↔ 0 < s.increment.toInt := Int64.lt_iff_toInt_lt
    rw [if_pos hrange, hadd]
    simp only [bind, Except.bind]
    by_cases hup : 0 < s.increment
    · have hup' := hpos.mp hup
      have hpast : s.Past ↔ Int64.ofInt s.succ > s.maxVal := by
        rw [gt_iff_lt, Int64.lt_iff_toInt_lt, hsucc, Past]
        omega
      rw [if_pos hup, restart, if_pos hup]
      exact bound_test hpast _ _ _
    · have hdown : ¬ 0 < s.increment.toInt := fun h => hup (hpos.mpr h)
      have hpast : s.Past ↔ Int64.ofInt s.succ < s.minVal := by
        rw [Int64.lt_iff_toInt_lt, hsucc, Past]
        omega
      rw [if_neg hup, restart, if_neg hup]
      exact bound_test hpast _ _ _
  · rw [if_neg hrange, addInt64, if_neg (fun h => hrange ((toInt_eq_iff add_eq_ofInt).mp h))]
    rfl

/-! ### One call -/

/-- What a call that returns leaves. -/
structure Lawful (s s' : Sequence) (op : Op) (a : Answer) : Prop where
  valid : s'.Valid
  refused : a = .refused → s' = s
  within : ∀ v, op = .nextval → a = .done (some v) →
    s.minVal.toInt ≤ v.toInt ∧ v.toInt ≤ s.maxVal.toInt

theorem lawful_answer {out : Option Sequence} (hs : s.Valid) (hne : op ≠ .nextval)
    (hout : ∀ s', out = some s' → s'.Valid)
    (h : (pure (s.answer out) : Except Fault _) = .ok (s', a)) : Lawful s s' op a := by
  cases out with
  | none =>
      cases h
      exact ⟨hs, fun _ => rfl, fun v hop => absurd hop hne⟩
  | some s' =>
      cases h
      exact ⟨hout s' rfl, nofun, fun v hop => absurd hop hne⟩

theorem valid_of_init {minval maxval startval increment : Int64} {cycle : Bool}
    (h : sequenceInit minval maxval startval increment cycle = some s) : s.Valid := by
  simp only [sequenceInit, Option.ite_none_left_eq_some] at h
  obtain ⟨hbounds, hlow, hhigh, hinc, h⟩ := h
  cases h
  simp only [ge_iff_le, gt_iff_lt, Int64.le_iff_toInt_le, Int64.lt_iff_toInt_lt, not_lt, not_le,
    ← Int64.toInt_inj] at hbounds hlow hhigh hinc
  exact ⟨hbounds, hlow, hhigh, hinc⟩

theorem Valid.setval (hs : s.Valid) {val : Int64} {isCalled : Bool}
    (h : sequenceSetval s val isCalled = some s') : s'.Valid := by
  simp only [sequenceSetval, Option.ite_none_left_eq_some] at h
  obtain ⟨hhigh, hlow, h⟩ := h
  cases h
  simp only [gt_iff_lt, Int64.lt_iff_toInt_lt, not_lt] at hlow hhigh
  exact ⟨hs.bounds, hlow, hhigh, hs.increment⟩

theorem Valid.setMinval (hs : s.Valid) {val : Int64} (h : sequenceSetMinval s val = some s') :
    s'.Valid := by
  simp only [sequenceSetMinval, Option.ite_none_left_eq_some] at h
  obtain ⟨hbounds, hlow, h⟩ := h
  cases h
  simp only [ge_iff_le, Int64.le_iff_toInt_le, Int64.lt_iff_toInt_lt, not_lt, not_le] at hbounds hlow
  exact ⟨hbounds, hlow, hs.high, hs.increment⟩

theorem Valid.setMaxval (hs : s.Valid) {val : Int64} (h : sequenceSetMaxval s val = some s') :
    s'.Valid := by
  simp only [sequenceSetMaxval, Option.ite_none_left_eq_some] at h
  obtain ⟨hbounds, hhigh, h⟩ := h
  cases h
  simp only [gt_iff_lt, Int64.le_iff_toInt_le, Int64.lt_iff_toInt_lt, not_lt, not_le] at hbounds hhigh
  exact ⟨hbounds, hs.low, hhigh, hs.increment⟩

theorem Valid.setIncrement (hs : s.Valid) {val : Int64} (h : sequenceSetIncrement s val = some s') :
    s'.Valid := by
  simp only [sequenceSetIncrement, Option.ite_none_left_eq_some] at h
  obtain ⟨hne, h⟩ := h
  cases h
  exact ⟨hs.bounds, hs.low, hs.high, fun hzero => hne (Int64.toInt_inj.mp hzero)⟩

/-- A sequence that is not used up has its next number inside the bounds. -/
theorem Valid.succ_within (hs : s.Valid) (hpast : ¬ s.Past) :
    s.minVal.toInt ≤ s.succ ∧ s.succ ≤ s.maxVal.toInt := by
  have hlow := hs.low
  have hhigh := hs.high
  simp only [Past, succ] at *
  omega

theorem lawful_nextval (hs : s.Valid) (h : step build s .nextval = .ok (s', a)) :
    Lawful s s' .nextval a := by
  obtain ⟨out, hnext, h⟩ := bind_eq_ok.mp h
  rw [hs.nextval_eq] at hnext
  by_cases hcalled : s.isCalled = 0
  · rw [if_pos hcalled] at hnext
    cases hnext
    cases h
    refine ⟨⟨hs.bounds, hs.low, hs.high, hs.increment⟩, nofun, ?_⟩
    intro v _ hv
    cases hv
    exact ⟨hs.low, hs.high⟩
  rw [if_neg hcalled] at hnext
  by_cases hrange : InRange s.succ
  · have hsucc : (Int64.ofInt s.succ).toInt = s.succ := Int64.toInt_ofInt_of_le hrange.1 hrange.2
    rw [if_pos hrange] at hnext
    by_cases hpast : s.Past
    · rw [if_pos hpast] at hnext
      by_cases hcycle : s.cycle = 0
      · rw [if_pos hcycle] at hnext
        cases hnext
        cases h
        exact ⟨hs, fun _ => rfl, nofun⟩
      · rw [if_neg hcycle] at hnext
        cases hnext
        cases h
        have hrestart : s.minVal.toInt ≤ s.restart.toInt ∧ s.restart.toInt ≤ s.maxVal.toInt := by
          have hbounds := hs.bounds
          rw [restart]
          split <;> omega
        refine ⟨⟨hs.bounds, hrestart.1, hrestart.2, hs.increment⟩, nofun, ?_⟩
        intro v _ hv
        cases hv
        exact hrestart
    · have hwithin := hs.succ_within hpast
      rw [← hsucc] at hwithin
      rw [if_neg hpast] at hnext
      cases hnext
      cases h
      refine ⟨⟨hs.bounds, hwithin.1, hwithin.2, hs.increment⟩, nofun, ?_⟩
      intro v _ hv
      cases hv
      exact hwithin
  · rw [if_neg hrange] at hnext
    cases hnext

theorem lawful_step (hs : s.Valid) (h : step build s op = .ok (s', a)) : Lawful s s' op a := by
  cases op with
  | init minval maxval startval increment cycle => exact lawful_answer hs nofun (fun _ => valid_of_init) h
  | nextval => exact lawful_nextval hs h
  | currval =>
      rw [step] at h
      cases hcurr : sequenceCurrval s with
      | none =>
          rw [hcurr] at h
          cases h
          exact ⟨hs, fun _ => rfl, nofun⟩
      | some v =>
          rw [hcurr] at h
          cases h
          exact ⟨hs, nofun, nofun⟩
  | setval val isCalled => exact lawful_answer hs nofun (fun _ => hs.setval) h
  | setMinval val => exact lawful_answer hs nofun (fun _ => hs.setMinval) h
  | setMaxval val => exact lawful_answer hs nofun (fun _ => hs.setMaxval) h
  | setIncrement val => exact lawful_answer hs nofun (fun _ => hs.setIncrement) h
  | setCycle val =>
      cases h
      exact ⟨⟨hs.bounds, hs.low, hs.high, hs.increment⟩, nofun, nofun⟩

/-- The only call that may not return is that for the next value. -/
theorem step_ok_iff (hs : s.Valid) :
    (∃ s' a, step build s op = .ok (s', a)) ↔ (op = .nextval → s.CanAdvance) := by
  cases op with
  | nextval =>
      rw [step, hs.nextval_eq]
      constructor
      · rintro ⟨s', a, h⟩ _ hcalled
        rw [if_neg hcalled] at h
        by_cases hrange : InRange s.succ
        · exact hrange
        · rw [if_neg hrange] at h
          cases h
      · intro h
        by_cases hcalled : s.isCalled = 0
        · rw [if_pos hcalled]
          exact ⟨_, _, rfl⟩
        rw [if_neg hcalled, if_pos (h rfl hcalled)]
        by_cases hpast : s.Past
        · rw [if_pos hpast]
          by_cases hcycle : s.cycle = 0
          · rw [if_pos hcycle]
            exact ⟨_, _, rfl⟩
          · rw [if_neg hcycle]
            exact ⟨_, _, rfl⟩
        · rw [if_neg hpast]
          exact ⟨_, _, rfl⟩
  | currval =>
      rw [step]
      cases sequenceCurrval s with
      | none => exact iff_of_true ⟨_, _, rfl⟩ nofun
      | some v => exact iff_of_true ⟨_, _, rfl⟩ nofun
  | init minval maxval startval increment cycle => exact iff_of_true ⟨_, _, rfl⟩ nofun
  | setval val isCalled => exact iff_of_true ⟨_, _, rfl⟩ nofun
  | setMinval val => exact iff_of_true ⟨_, _, rfl⟩ nofun
  | setMaxval val => exact iff_of_true ⟨_, _, rfl⟩ nofun
  | setIncrement val => exact iff_of_true ⟨_, _, rfl⟩ nofun
  | setCycle val => exact iff_of_true ⟨_, _, rfl⟩ nofun

theorem valid_of_exec {ops : List Op} {hist : List (Op × Answer)} (hs : s.Valid)
    (h : Machine.exec (step build) s ops = .ok (s', hist)) : s'.Valid :=
  Machine.exec_invariant (fun _ s => s.Valid) (fun _ => True) []
    (fun _ _ _ _ _ hs _ hstep => (lawful_step hs hstep).valid) hs (fun _ _ => trivial) h

/-- A run is answered to its end exactly where every next value can be calculated. -/
theorem exec_ok_iff {ops : List Op} (hs : s.Valid) :
    (∃ s' hist, Machine.exec (step build) s ops = .ok (s', hist))
      ↔ Machine.Along (step build) (fun s op => op = .nextval → s.CanAdvance) s ops := by
  induction ops generalizing s with
  | nil => exact iff_of_true ⟨s, [], rfl⟩ (Machine.along_nil _ _)
  | cons op ops ih =>
      constructor
      · rintro ⟨s', hist, h⟩
        obtain ⟨s₁, a, rest, hone, hrest, -⟩ := Machine.exec_cons_eq_ok.mp h
        rw [Machine.along_cons hone]
        exact ⟨(step_ok_iff hs).mp ⟨s₁, a, hone⟩, (ih (lawful_step hs hone).valid).mp ⟨s', rest, hrest⟩⟩
      · intro h
        obtain ⟨s₁, a, hone⟩ : ∃ s₁ a, step build s op = .ok (s₁, a) :=
          (step_ok_iff hs).mpr (h [] op ops s [] rfl rfl)
        obtain ⟨s', rest, hrest⟩ := (ih (lawful_step hs hone).valid).mpr ((Machine.along_cons hone).mp h).2
        exact ⟨s', _, Machine.exec_cons_eq_ok.mpr ⟨s₁, a, rest, hone, hrest, rfl⟩⟩

/-! ### Counting -/

/-- The values that `sequence_nextval` has put out. -/
def values (hist : List (Op × Answer)) : List Int64 :=
  hist.filterMap fun
    | (.nextval, .done outval) => outval
    | _ => none

/-- Calls that change no parameter, nor the current value but by counting. -/
def Quiet (entry : Op × Answer) : Prop :=
  entry.2 = .refused ∨ entry.1 = .nextval ∨ entry.1 = .currval

/-- The value that `sequence_nextval` puts out where the sequence is not used up. -/
def upcoming (s : Sequence) : Int := if s.isCalled = 0 then s.lastVal.toInt else s.succ

theorem upcoming_of_nextval {v : Int64} (hs : s.Valid) (hcycle : s.cycle = 0)
    (h : step build s .nextval = .ok (s', .done (some v))) :
    v.toInt = s.upcoming ∧ s'.upcoming = s.upcoming + s.increment.toInt ∧ s'.cycle = 0
      ∧ s'.increment = s.increment := by
  obtain ⟨out, hnext, h⟩ := bind_eq_ok.mp h
  rw [hs.nextval_eq] at hnext
  by_cases hcalled : s.isCalled = 0
  · rw [if_pos hcalled] at hnext
    cases hnext
    cases h
    refine ⟨?_, ?_, hcycle, rfl⟩
    · rw [upcoming, if_pos hcalled]
    · rw [upcoming, upcoming, if_pos hcalled]
      rfl
  rw [if_neg hcalled] at hnext
  by_cases hrange : InRange s.succ
  · have hsucc : (Int64.ofInt s.succ).toInt = s.succ := Int64.toInt_ofInt_of_le hrange.1 hrange.2
    rw [if_pos hrange] at hnext
    by_cases hpast : s.Past
    · rw [if_pos hpast, if_pos hcycle] at hnext
      cases hnext
      cases h
    · rw [if_neg hpast] at hnext
      cases hnext
      cases h
      refine ⟨?_, ?_, hcycle, rfl⟩
      · rw [upcoming, if_neg hcalled, hsucc]
      · rw [upcoming, upcoming, if_neg hcalled, if_neg hcalled, succ, hsucc]
  · rw [if_neg hrange] at hnext
    cases hnext

theorem quiet_step (hs : s.Valid) (hcycle : s.cycle = 0) (hquiet : Quiet (op, a))
    (h : step build s op = .ok (s', a)) :
    (values [(op, a)] = [] ∧ s' = s)
      ∨ ∃ v, values [(op, a)] = [v] ∧ v.toInt = s.upcoming
        ∧ s'.upcoming = s.upcoming + s.increment.toInt ∧ s'.cycle = 0 ∧ s'.increment = s.increment := by
  have hlawful := lawful_step hs h
  cases a with
  | refused =>
      left
      refine ⟨?_, hlawful.refused rfl⟩
      cases op <;> rfl
  | done outval =>
      rcases hquiet with hrefused | hop | hop
      · cases hrefused
      · cases hop
        cases outval with
        | some v => exact Or.inr ⟨v, rfl, upcoming_of_nextval hs hcycle h⟩
        | none =>
            obtain ⟨out, -, h⟩ := bind_eq_ok.mp h
            cases out with
            | none => cases h
            | some out => cases h
      · cases hop
        left
        refine ⟨rfl, ?_⟩
        rw [step] at h
        cases hcurr : sequenceCurrval s with
        | none =>
            rw [hcurr] at h
            cases h
        | some v =>
            rw [hcurr] at h
            cases h
            rfl

theorem values_cons (entry : Op × Answer) (hist : List (Op × Answer)) :
    values (entry :: hist) = values [entry] ++ values hist := by
  rw [← List.singleton_append, values, List.filterMap_append]
  rfl

theorem values_of_quiet {ops : List Op} {hist : List (Op × Answer)} (hs : s.Valid)
    (hcycle : s.cycle = 0) (h : Machine.exec (step build) s ops = .ok (s', hist))
    (hquiet : ∀ entry ∈ hist, Quiet entry) :
    (values hist).map Int64.toInt
      = (List.range (values hist).length).map fun k : Nat => s.upcoming + (k : Int) * s.increment.toInt := by
  induction ops generalizing s hist with
  | nil =>
      cases h
      rfl
  | cons op ops ih =>
      obtain ⟨s₁, a, rest, hone, hrest, rfl⟩ := Machine.exec_cons_eq_ok.mp h
      have hvalid := (lawful_step hs hone).valid
      have hlater : ∀ entry ∈ rest, Quiet entry := fun entry hentry => hquiet entry (by simp [hentry])
      rw [values_cons]
      rcases quiet_step hs hcycle (hquiet _ (by simp)) hone with
        ⟨hnone, rfl⟩ | ⟨v, hvalue, hv, hnext, hcycle', hinc⟩
      · rw [hnone, List.nil_append]
        exact ih hvalid hcycle hrest hlater
      · have hrest' := ih hvalid hcycle' hrest hlater
        rw [hvalue, List.singleton_append, List.map_cons, List.length_cons, List.range_succ_eq_map,
          List.map_cons, List.map_map, hrest', hv]
        congr 1
        · simp
        · apply List.map_congr_left
          intro k _
          rw [hnext, hinc]
          simp only [Function.comp_def, Nat.succ_eq_add_one, Nat.cast_add, Nat.cast_one, Int.add_mul,
            Int.one_mul]
          omega

/-- What is promised of a run that starts at a new sequence. -/
structure Laws (build : Build) (s : Sequence) (ops : List Op) : Prop where
  answered : ∃ s' hist, Machine.exec (step build) s ops = .ok (s', hist)
  lawful : ∀ before op after s₁ hist s₂ a, ops = before ++ op :: after →
    Machine.exec (step build) s before = .ok (s₁, hist) → step build s₁ op = .ok (s₂, a) →
      Lawful s₁ s₂ op a
  counts : ∀ before during after s₁ hist₁ s₂ hist₂, ops = before ++ during ++ after →
    Machine.exec (step build) s before = .ok (s₁, hist₁) →
    Machine.exec (step build) s₁ during = .ok (s₂, hist₂) →
    s₁.cycle = 0 → (∀ entry ∈ hist₂, Quiet entry) →
      (values hist₂).Nodup ∧ ∃ first : Int, (values hist₂).map Int64.toInt
        = (List.range (values hist₂).length).map fun k : Nat => first + (k : Int) * s₁.increment.toInt

theorem nodup_of_progression {vs : List Int64} {first inc : Int} (hinc : inc ≠ 0)
    (h : vs.map Int64.toInt = (List.range vs.length).map fun k : Nat => first + (k : Int) * inc) :
    vs.Nodup := by
  apply List.Nodup.of_map Int64.toInt
  rw [h]
  apply List.Nodup.map _ List.nodup_range
  intro j k hjk
  have hmul : (j : Int) * inc = k * inc := Int.add_left_cancel hjk
  exact Int.ofNat_inj.mp (Int.eq_of_mul_eq_mul_right hinc hmul)

/-- **The laws of sequences** hold exactly of the runs that ask for a next value only where it can be
calculated. -/
theorem laws_iff {minval maxval startval increment : Int64} {cycle : Bool} {ops : List Op}
    (h : sequenceInit minval maxval startval increment cycle = some s) :
    Laws build s ops
      ↔ Machine.Along (step build) (fun s op => op = .nextval → s.CanAdvance) s ops := by
  have hs := valid_of_init h
  constructor
  · intro hlaws
    exact (exec_ok_iff hs).mp hlaws.answered
  · intro halong
    refine { answered := (exec_ok_iff hs).mpr halong, lawful := ?_, counts := ?_ }
    · intro before op after s₁ hist s₂ a _ hbefore hone
      exact lawful_step (valid_of_exec hs hbefore) hone
    · intro before during after s₁ hist₁ s₂ hist₂ _ hbefore hduring hcycle hquiet
      have hs₁ := valid_of_exec hs hbefore
      have hvalues := values_of_quiet hs₁ hcycle hduring hquiet
      exact ⟨nodup_of_progression hs₁.increment hvalues, s₁.upcoming, hvalues⟩

theorem laws_iff_count : ∃ s, sequenceInit 1 3 1 2 false = some s
    ∧ Laws .debug s [.nextval, .nextval, .nextval] := by
  refine ⟨⟨1, 3, 1, 2, 0, 0⟩, by decide, (laws_iff (show sequenceInit 1 3 1 2 false = _ by decide)).mpr ?_⟩
  have hfirst : step .debug ⟨1, 3, 1, 2, 0, 0⟩ .nextval = .ok (⟨1, 3, 1, 2, 0, 1⟩, .done (some 1)) := rfl
  have hsecond : step .debug ⟨1, 3, 1, 2, 0, 1⟩ .nextval = .ok (⟨1, 3, 3, 2, 0, 1⟩, .done (some 3)) := rfl
  have hthird : step .debug ⟨1, 3, 3, 2, 0, 1⟩ .nextval = .ok (⟨1, 3, 3, 2, 0, 1⟩, .refused) := rfl
  rw [Machine.along_cons hfirst, Machine.along_cons hsecond, Machine.along_cons hthird]
  simp only [CanAdvance, succ, InRange]
  exact ⟨by decide, by decide, by decide, Machine.along_nil _ _⟩

/-- At the largest `int64_t` the next value is calculated before the bound is looked at. -/
theorem nextval_overflows : ∃ s, sequenceInit 0 9223372036854775807 9223372036854775807 1 false = some s
    ∧ ¬ Laws .release s [.nextval, .nextval] := by
  refine ⟨⟨0, 9223372036854775807, 9223372036854775807, 1, 0, 0⟩, by decide, ?_⟩
  intro hlaws
  obtain ⟨s', hist, h⟩ := hlaws.answered
  have hfault : Machine.exec (step .release) ⟨0, 9223372036854775807, 9223372036854775807, 1, 0, 0⟩
      [.nextval, .nextval] = .error .signedOverflow := rfl
  rw [hfault] at h
  cases h

end Sequence

end Scroller

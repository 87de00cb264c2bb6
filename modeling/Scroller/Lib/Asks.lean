import Mathlib.Data.List.Basic

/-!
# Programs that ask their environment

A program asks one question after the other, and what it asks next depends on the answers. An environment with a
state of its own answers or fails, which ends the program. Against the answers that a question should get, a run
goes well as long as the environment serves the questions of the program.
-/

/-- A program with questions of type `Q`, which ends with a result. -/
inductive Asks {Q : Type} (A : Q → Type) (ε α : Type) : Type where
  | done (r : Except ε α)
  | ask (q : Q) (k : A q → Asks A ε α)

namespace Asks

variable {Q : Type} {A : Q → Type} {ε α β σ : Type}

def bind : Asks A ε α → (α → Asks A ε β) → Asks A ε β
  | .done (.ok a), f => f a
  | .done (.error e), _ => .done (.error e)
  | .ask q k, f => .ask q fun a => (k a).bind f

instance : Monad (Asks A ε) where
  pure a := .done (.ok a)
  bind := bind

/-- A question, whose answer is the result. -/
def question (q : Q) : Asks A ε (A q) := .ask q fun a => .done (.ok a)

/-! ### Right answers -/

/-- The result where every question gets its right answer. -/
def value (right : (q : Q) → A q) : Asks A ε α → Except ε α
  | .done r => r
  | .ask q k => (k (right q)).value right

/-- The questions that are asked then. -/
def asked (right : (q : Q) → A q) : Asks A ε α → List Q
  | .done _ => []
  | .ask q k => q :: (k (right q)).asked right

section

variable {right : (q : Q) → A q} {x : Asks A ε α} {f : α → Asks A ε β}

theorem value_bind : (x >>= f).value right = (x.value right >>= fun a => (f a).value right) := by
  induction x with
  | done r =>
      cases r with
      | error e => rfl
      | ok a => rfl
  | ask q k ih => exact ih (right q)

theorem asked_bind_of_ok {a : α} (h : x.value right = .ok a) :
    (x >>= f).asked right = x.asked right ++ (f a).asked right := by
  induction x with
  | done r =>
      cases h
      rfl
  | ask q k ih => exact congrArg (q :: ·) (ih (right q) h)

end

/-! ### Runs -/

/-- An environment answers with a new state. -/
abbrev Environment (A : Q → Type) (ε σ : Type) : Type := σ → (q : Q) → Except ε (A q) × σ

/-- A question with its answer. -/
abbrev Exchange (A : Q → Type) (ε : Type) : Type := (q : Q) × Except ε (A q)

/-- The exchanges of a program with an environment, and its result. -/
def run (env : Environment A ε σ) : Asks A ε α → σ → List (Exchange A ε) × Except ε α
  | .done r, _ => ([], r)
  | .ask q k, s =>
      match env s q with
      | (.error e, _) => ([⟨q, .error e⟩], .error e)
      | (.ok a, s) =>
          let (exchanges, r) := (k a).run env s
          (⟨q, .ok a⟩ :: exchanges, r)

/-- An environment gives the right answer to one question after the other. -/
def Serves (env : Environment A ε σ) (right : (q : Q) → A q) : σ → List Q → Prop
  | _, [] => True
  | s, q :: qs => (env s q).1 = .ok (right q) ∧ Serves env right (env s q).2 qs

section

variable {env : Environment A ε σ} {right : (q : Q) → A q} {x : Asks A ε α} {q : Q} {k : A q → Asks A ε α} {s : σ}

theorem run_ask_ok {a : A q} (h : (env s q).1 = .ok a) :
    run env (.ask q k) s
      = (⟨q, .ok a⟩ :: (run env (k a) (env s q).2).1, (run env (k a) (env s q).2).2) := by
  obtain ⟨r, s', hr⟩ : ∃ r s', env s q = (r, s') := ⟨_, _, rfl⟩
  rw [hr] at h ⊢
  cases h
  rw [run, hr]

theorem run_ask_error {e : ε} (h : (env s q).1 = .error e) :
    run env (.ask q k) s = ([⟨q, .error e⟩], .error e) := by
  obtain ⟨r, s', hr⟩ : ∃ r s', env s q = (r, s') := ⟨_, _, rfl⟩
  rw [hr] at h
  cases h
  rw [run, hr]

theorem exists_of_mem_run {exchange : Exchange A ε} (h : exchange ∈ (run env x s).1) :
    ∃ s', exchange.2 = (env s' exchange.1).1 := by
  induction x generalizing s with
  | done r => cases h
  | ask q k ih =>
      cases hr : (env s q).1 with
      | error e =>
          rw [run_ask_error hr, List.mem_singleton] at h
          subst h
          exact ⟨s, hr.symm⟩
      | ok a =>
          rw [run_ask_ok hr] at h
          rcases List.mem_cons.mp h with rfl | hrest
          · exact ⟨s, hr.symm⟩
          · exact ih a hrest

/-- All exchanges are right exactly where the environment serves the questions. -/
theorem right_iff_serves :
    (∀ exchange ∈ (run env x s).1, exchange.2 = .ok (right exchange.1)) ↔ Serves env right s (x.asked right) := by
  induction x generalizing s with
  | done r => exact iff_of_true (fun _ hmem => nomatch hmem) trivial
  | ask q k ih =>
      cases hr : (env s q).1 with
      | error e =>
          rw [run_ask_error hr]
          constructor
          · intro h
            cases h ⟨q, .error e⟩ List.mem_cons_self
          · rintro ⟨hright, -⟩
            rw [hr] at hright
            cases hright
      | ok a =>
          rw [run_ask_ok hr, List.forall_mem_cons]
          constructor
          · rintro ⟨hright, hrest⟩
            obtain rfl : a = right q := Except.ok.inj hright
            exact ⟨hr, (ih (right q)).mp hrest⟩
          · rintro ⟨hright, hrest⟩
            rw [hr] at hright
            cases hright
            exact ⟨rfl, (ih (right q)).mpr hrest⟩

theorem run_of_serves (h : Serves env right s (x.asked right)) : (run env x s).2 = x.value right := by
  induction x generalizing s with
  | done r => rfl
  | ask q k ih =>
      obtain ⟨hright, hrest⟩ := h
      rw [run_ask_ok hright]
      exact ih (right q) hrest

end

end Asks

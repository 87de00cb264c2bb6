import Mathlib.Data.List.Nodup
import Mathlib.Data.List.Perm.Basic
import Mathlib.Data.List.Count
import Mathlib.Data.List.Induction

/-!
# Ledgers of resources

A ledger lists the acquisitions and the releases of resources, the oldest first. It is sound when only
free resources are acquired and only held ones are released, so that none is released twice.
-/

namespace Ledger

variable {R : Type*}

inductive Event (R : Type*) where
  | acquire (r : R)
  | release (r : R)
deriving DecidableEq

variable [DecidableEq R]

/-- The resources held after an event. -/
def Event.apply : Event R → List R → List R
  | .acquire r, held => r :: held
  | .release r, held => held.erase r

def Event.Allowed : Event R → List R → Prop
  | .acquire r, held => r ∉ held
  | .release r, held => r ∈ held

/-- The resources that were acquired and not yet released. -/
def held (log : List (Event R)) : List R := log.foldl (fun held e => e.apply held) []

def Sound (log : List (Event R)) : Prop :=
  ∀ before e after, log = before ++ e :: after → e.Allowed (held before)

variable {log : List (Event R)} {e : Event R} {r : R}

@[simp]
theorem held_concat : held (log ++ [e]) = e.apply (held log) := by
  rw [held, List.foldl_append]
  rfl

theorem sound_nil : Sound ([] : List (Event R)) := by
  intro before e after hsplit
  cases before with
  | nil => cases hsplit
  | cons head before => cases hsplit

theorem sound_concat : Sound (log ++ [e]) ↔ Sound log ∧ e.Allowed (held log) := by
  constructor
  · intro h
    refine ⟨?_, h log e [] rfl⟩
    intro before head after hsplit
    apply h before head (after ++ [e])
    rw [hsplit, List.append_assoc, List.cons_append]
  · rintro ⟨hlog, he⟩ before head after hsplit
    rcases List.eq_nil_or_concat after with rfl | ⟨after, last, rfl⟩
    · obtain ⟨rfl, hsame⟩ := List.append_inj' hsplit rfl
      cases hsame
      exact he
    · rw [List.concat_eq_append, ← List.cons_append, ← List.append_assoc] at hsplit
      obtain ⟨rfl, -⟩ := List.append_inj' hsplit rfl
      exact hlog before head after rfl

theorem nodup_held (h : Sound log) : (held log).Nodup := by
  induction log using List.reverseRecOn with
  | nil => exact List.nodup_nil
  | append_singleton log e ih =>
      obtain ⟨hlog, he⟩ := sound_concat.mp h
      rw [held_concat]
      cases e with
      | acquire r => exact List.nodup_cons.mpr ⟨he, ih hlog⟩
      | release r => exact (ih hlog).erase r

/-- Of every resource the ledger holds what it acquired more often than it released it. -/
theorem count_release (h : Sound log) (r : R) :
    log.count (.release r) + (held log).count r = log.count (.acquire r) := by
  induction log using List.reverseRecOn with
  | nil => rfl
  | append_singleton log e ih =>
      obtain ⟨hlog, he⟩ := sound_concat.mp h
      have hbefore := ih hlog
      rw [held_concat, List.count_append, List.count_append, List.count_singleton,
        List.count_singleton]
      cases e with
      | acquire r' =>
          rw [Event.apply, List.count_cons]
          by_cases heq : r' = r
          · simp [heq]
            omega
          · simp [heq]
            omega
      | release r' =>
          have hpos : 0 < (held log).count r' := List.count_pos_iff.mpr he
          rw [Event.apply]
          by_cases heq : r' = r
          · rw [heq] at hpos ⊢
            rw [List.count_erase_self]
            simp
            omega
          · rw [List.count_erase_of_ne (Ne.symm heq)]
            simp [heq]
            omega

theorem sound_release_all {rs : List R} (h : Sound log) (hall : rs.Perm (held log)) :
    Sound (log ++ rs.map .release) ∧ held (log ++ rs.map .release) = [] := by
  induction rs generalizing log with
  | nil =>
      rw [List.map_nil, List.append_nil]
      exact ⟨h, List.nil_perm.mp hall⟩
  | cons r rs ih =>
      rw [List.map_cons, List.append_cons]
      apply ih
      · exact sound_concat.mpr ⟨h, hall.mem_iff.mp (by simp)⟩
      · rw [held_concat]
        simpa [Event.apply] using hall.erase r

end Ledger

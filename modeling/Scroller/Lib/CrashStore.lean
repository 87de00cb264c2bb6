import Mathlib.Data.Set.Basic
import Mathlib.Logic.Function.Basic
import Scroller.Lib.Machine

/-!
# Stores that survive crashes

A store from keys to values that are changed in place, behind a volatile cache that writes values back
whenever it likes. What is known of a key are its value now and the versions of it that may be on the disk:
those since it was last flushed. A crash leaves one of the versions, so that a value that was flushed after
its last change is found again.
-/

namespace CrashStore

variable {K P B : Type*}

/-- What is known of a key: its value, and the values that the disk may have for it. Nothing is known of a
key that was never on the disk and never used. -/
structure Known (K P : Type*) where
  value : K → Option P
  versions : K → Option (Set P)

/-- A use reads a value and puts another one in its place; a crash comes with what the restart needs. -/
inductive Op (K P B : Type*) where
  | use (key : K) (f : P → P)
  | flush (key : K)
  | crash (boot : B)

variable [DecidableEq K]

/-- What a disk tells at the start. -/
def Known.ofDisk (disk : K → Option P) : Known K P where
  value := disk
  versions key := (disk key).map fun p => {p}

/-- A value that was used. -/
def Known.used (s : Known K P) (key : K) (p : P) : Known K P where
  value := Function.update s.value key (some p)
  versions := Function.update s.versions key ((s.versions key).map fun versions => insert p versions)

def Known.flushed (s : Known K P) (key : K) : Known K P :=
  { s with versions := Function.update s.versions key ((s.value key).map fun p => {p}) }

/-- The values after a crash are versions of them. -/
structure Known.Lost (s s' : Known K P) : Prop where
  some : ∀ {key versions}, s.versions key = some versions →
    ∃ p ∈ versions, s'.value key = some p ∧ s'.versions key = some {p}
  none : ∀ {key}, s.versions key = none → s'.value key = none ∧ s'.versions key = none

/-- The answer to a use is the value that it found. -/
inductive Step : Known K P → Op K P B → Option P → Known K P → Prop
  | use {s : Known K P} {key : K} {f : P → P} {found : P} (hfound : ∀ p, s.value key = some p → found = p) :
      Step s (.use key f) (some found) (s.used key (f found))
  | flush {s : Known K P} {key : K} : Step s (.flush key) none (s.flushed key)
  | crash {s s' : Known K P} {boot : B} (hlost : s.Lost s') : Step s (.crash boot) none s'

/-! ### A value that was flushed -/

/-- The disk has the value of a key, whatever was written back. -/
def Known.Safe (s : Known K P) (key : K) (p : P) : Prop := s.value key = some p ∧ s.versions key = some {p}

/-- A key is not changed by an operation. -/
def Op.Leaves (key : K) : Op K P B → Prop
  | .use key' _ => key' ≠ key
  | .flush _ | .crash _ => True

theorem Known.versions_flushed {s : Known K P} {key : K} {p : P} (h : s.value key = some p) :
    (s.flushed key).versions key = some {p} := by
  have hself : (s.flushed key).versions key = (s.value key).map fun p => {p} := Function.update_self key _ _
  rw [hself, h]
  rfl

omit [DecidableEq K] in
theorem Known.safe_ofDisk {disk : K → Option P} {key : K} {p : P} (h : disk key = some p) :
    (Known.ofDisk disk).Safe key p := ⟨h, congrArg (Option.map fun p => ({p} : Set P)) h⟩

theorem Known.safe_flushed {s : Known K P} {key : K} {p : P} (h : s.value key = some p) : (s.flushed key).Safe key p :=
  ⟨h, versions_flushed h⟩

theorem Known.value_used (s : Known K P) (key : K) (p : P) : (s.used key p).value key = some p :=
  Function.update_self key _ s.value

theorem Known.value_used_of_ne (s : Known K P) {key key' : K} (h : key' ≠ key) (p : P) :
    (s.used key p).value key' = s.value key' := Function.update_of_ne h _ _

theorem Known.versions_used_of_ne (s : Known K P) {key key' : K} (h : key' ≠ key) (p : P) :
    (s.used key p).versions key' = s.versions key' := Function.update_of_ne h _ _

theorem Step.value_of_leaves {s s' : Known K P} {op : Op K P B} {found : Option P} {key : K} {p : P}
    (h : Step s op found s') (hop : op.Leaves key) (hcrash : ∀ boot, op ≠ .crash boot) (hp : s.value key = some p) :
    s'.value key = some p := by
  cases h with
  | use =>
      rw [Known.value_used_of_ne _ (Ne.symm hop)]
      exact hp
  | flush => exact hp
  | crash => exact absurd rfl (hcrash _)

theorem Step.safe {s s' : Known K P} {op : Op K P B} {found : Option P} {key : K} {p : P}
    (h : Step s op found s') (hop : op.Leaves key) (hp : s.Safe key p) : s'.Safe key p := by
  obtain ⟨hvalue, hversions⟩ := hp
  cases h with
  | use =>
      constructor
      · rw [Known.value_used_of_ne _ (Ne.symm hop)]
        exact hvalue
      · rw [Known.versions_used_of_ne _ (Ne.symm hop)]
        exact hversions
  | @flush key' =>
      refine ⟨hvalue, ?_⟩
      by_cases hkey : key = key'
      · rw [← hkey]
        exact Known.versions_flushed hvalue
      · exact (Function.update_of_ne hkey _ _).trans hversions
  | crash hlost =>
      obtain ⟨q, rfl, hvalue', hversions'⟩ := hlost.some hversions
      exact ⟨hvalue', hversions'⟩

open Machine (Follows)

theorem safe_of_follows {s s' : Known K P} {hist : List (Op K P B × Option P)} {key : K} {p : P}
    (h : Follows Step s hist s') (hleaves : ∀ entry ∈ hist, entry.1.Leaves key) (hp : s.Safe key p) :
    s'.Safe key p := by
  induction h with
  | nil => exact hp
  | cons hstep _ ih =>
      exact ih (fun entry hentry => hleaves entry (List.mem_cons_of_mem _ hentry))
        (hstep.safe (hleaves _ List.mem_cons_self) hp)

theorem value_of_follows {s s' : Known K P} {hist : List (Op K P B × Option P)} {key : K} {p : P}
    (h : Follows Step s hist s')
    (hleaves : ∀ entry ∈ hist, entry.1.Leaves key ∧ ∀ boot, entry.1 ≠ .crash boot)
    (hp : s.value key = some p) : s'.value key = some p := by
  induction h with
  | nil => exact hp
  | cons hstep _ ih =>
      have hhead := hleaves _ List.mem_cons_self
      exact ih (fun entry hentry => hleaves entry (List.mem_cons_of_mem _ hentry))
        (hstep.value_of_leaves hhead.1 hhead.2 hp)

/-- An operation on a value that is known. -/
def Op.Reads (known : K → Option P) : Op K P B → Prop
  | .use key _ => known key ≠ none
  | .flush _ => True
  | .crash _ => False

omit [DecidableEq K] in
theorem Op.Reads.mono {known known' : K → Option P} {op : Op K P B} (h : op.Reads known)
    (hmono : ∀ {key}, known key ≠ none → known' key ≠ none) : op.Reads known' := by
  cases op with
  | use key f => exact hmono h
  | flush key => trivial
  | crash boot => exact h

theorem Step.value_ne_none {s s' : Known K P} {op : Op K P B} {found : Option P} (h : Step s op found s')
    (hop : op.Reads s.value) {key : K} (hkey : s.value key ≠ none) : s'.value key ≠ none := by
  cases h with
  | @use key' _ _ _ =>
      by_cases hsame : key = key'
      · subst hsame
        rw [Known.value_used]
        exact Option.some_ne_none _
      · rw [Known.value_used_of_ne _ hsame]
        exact hkey
  | flush => exact hkey
  | crash => exact hop.elim

/-- Where every value that is used is known, the answers are determined. -/
theorem eq_of_follows {s t s' t' : Known K P} {hist hist' : List (Op K P B × Option P)}
    (h : Follows Step s hist s') (h' : Follows Step t hist' t') (hops : hist.map Prod.fst = hist'.map Prod.fst)
    (hsame : t.value = s.value) (hreads : ∀ entry ∈ hist, entry.1.Reads s.value) : hist' = hist := by
  induction h generalizing t hist' with
  | nil => exact List.map_eq_nil_iff.mp hops.symm
  | @cons s s₁ s' op found rest hstep hrest ih =>
      cases h' with
      | nil => cases hops
      | @cons _ t₁ _ op' found' rest' hstep' hrest' =>
          obtain ⟨rfl, hops'⟩ := List.cons.inj hops
          have hop := hreads _ List.mem_cons_self
          have hagree : found' = found ∧ t₁.value = s₁.value := by
            cases hstep with
            | @use key f p hfound =>
                cases hstep' with
                | @use _ _ q hfound' =>
                    obtain ⟨r, hr⟩ := Option.ne_none_iff_exists'.mp hop
                    have hp := hfound r hr
                    have hq := hfound' r (by rw [hsame, hr])
                    rw [hp, hq]
                    exact ⟨rfl, by rw [Known.used, Known.used, hsame]⟩
            | flush =>
                cases hstep' with
                | flush => exact ⟨rfl, hsame⟩
            | crash => exact hop.elim
          obtain ⟨rfl, hvalue⟩ := hagree
          rw [ih hrest' hops' hvalue fun entry hentry =>
            (hreads entry (List.mem_cons_of_mem _ hentry)).mono (hstep.value_ne_none hop)]

/-- A value that was flushed after its last change is found by the next use, whatever crashed in between. -/
theorem found_of_flushed {s s' : Known K P} {before between after : List (Op K P B × Option P)} {key : K}
    {f g : P → P} {found found' flushed : Option P}
    (h : Follows Step s
      (before ++ (.use key f, found) :: between ++ (.flush key, flushed) :: after ++ [(.use key g, found')]) s')
    (hbetween : ∀ entry ∈ between, entry.1.Leaves key ∧ ∀ boot, entry.1 ≠ .crash boot)
    (hafter : ∀ entry ∈ after, entry.1.Leaves key) : ∃ p, found = some p ∧ found' = some (f p) := by
  rw [List.append_assoc, List.append_assoc] at h
  obtain ⟨s₁, -, h⟩ := h.of_append
  cases h with
  | cons huse h =>
      obtain ⟨s₃, hkept, h⟩ := h.of_append
      cases h with
      | cons hflush h =>
          obtain ⟨s₅, hsafe, h⟩ := h.of_append
          cases h with
          | cons huse' _ =>
              cases huse with
              | @use _ _ p hfound =>
                  have hvalue := value_of_follows hkept hbetween (Known.value_used s₁ key (f p))
                  cases hflush with
                  | flush =>
                      obtain ⟨hlast, -⟩ := safe_of_follows hsafe hafter (Known.safe_flushed hvalue)
                      cases huse' with
                      | use hfound' => exact ⟨p, rfl, congrArg some (hfound' _ hlast)⟩

end CrashStore

import Scroller.Store

/-!
# Ids and sequences

The ids of the pages of a table, as numbers, and the sequences that hand out file ids and transaction ids.
A file id below `2 ^ 40` fills its field, and the ids of its first two pages name no other file.
-/

namespace Scroller

namespace Gid

/-- The id as a number. -/
def num (gid : Gid) : Nat := gid.full.toNat

/-- The id of the page behind a page of a file, as `mesh_alloc_row` makes it. -/
def successor (gid : Gid) : Gid := .ofParts gid.fileId (gid.page + 1)

theorem num_injective {g g' : Gid} (h : g.num = g'.num) : g = g' := by
  cases g
  cases g'
  congr 1
  exact UInt64.toNat_inj.mp h

theorem num_ofParts (fileId page : UInt64) :
    (ofParts fileId page).num = page.toNat % 2 ^ 24 * 2 ^ 40 + fileId.toNat % 2 ^ 40 := by
  unfold num ofParts
  simp
  omega

theorem page_of_num_lt {g : Gid} (hg : g.num < 2 ^ 40) : g.page = 0 := by
  unfold num at hg
  apply UInt64.toNat_inj.mp
  simp [page]
  omega

theorem num_fileId {g : Gid} (hg : g.num < 2 ^ 40) : g.fileId.toNat = g.num := by
  unfold num at hg ⊢
  simp [fileId]
  omega

theorem ofParts_zero {v : UInt64} (hv : v.toNat < 2 ^ 40) : ofParts v 0 = ⟨v⟩ := by
  apply num_injective
  rw [num_ofParts]
  simp [num]
  omega

theorem num_successor {g : Gid} (hg : g.num < 2 ^ 40) : g.successor.num = 2 ^ 40 + g.num := by
  unfold successor
  rw [num_ofParts, num_fileId hg, page_of_num_lt hg]
  simp
  omega

theorem undef_num : undef.num = 0 := rfl

end Gid


namespace Sequence

/-- The sequences that `sequence_init` is asked for: they count from 1 and never start over. -/
structure Plain (s : Sequence) : Prop where
  increment : s.increment = 1
  maxVal : s.maxVal = .ofInt (2 ^ 63 - 1)
  first : s.isCalled = 0 → s.lastVal = 1
  later : s.isCalled ≠ 0 → 1 ≤ s.lastVal.toInt

/-- How many values a plain sequence has given out; the last of them is this number. -/
def issued (s : Sequence) : Nat := if s.isCalled = 0 then 0 else s.lastVal.toInt.toNat

theorem plain_sequenceInit {s : Sequence}
    (h : sequenceInit 1 (.ofInt (2 ^ 63 - 1)) 1 1 false = some s) : s.Plain ∧ s.issued = 0 := by
  have hs : s = ⟨1, .ofInt (2 ^ 63 - 1), 1, 1, 0, 0⟩ := by
    have hsome : some s = some ⟨1, .ofInt (2 ^ 63 - 1), 1, 1, 0, 0⟩ := h.symm.trans (by decide)
    exact Option.some_injective _ hsome
  subst hs
  exact ⟨⟨rfl, rfl, fun _ => rfl, fun h => absurd rfl h⟩, rfl⟩

theorem addInt64_eq_ok {a b c : Int64} :
    addInt64 a b = .ok c ↔ c = a + b ∧ c.toInt = a.toInt + b.toInt := by
  unfold addInt64
  constructor
  · intro h
    split at h
    · rename_i hsum
      cases h
      exact ⟨rfl, hsum⟩
    · cases h
  · rintro ⟨rfl, hsum⟩
    rw [if_pos hsum]

theorem toInt_le_max (a : Int64) : a.toInt ≤ (Int64.ofInt (2 ^ 63 - 1)).toInt := by
  have h := a.toInt_lt
  have hmax : (Int64.ofInt (2 ^ 63 - 1)).toInt = 2 ^ 63 - 1 := by decide
  omega

/-- A plain sequence is never used up: its next value is the number of values given out by then. -/
theorem Plain.nextval {build : Build} {s : Sequence} (hs : s.Plain)
    {out : Option (Sequence × Int64)} (h : sequenceNextval build s = .ok out) :
    ∃ s' v, out = some (s', v) ∧ s'.Plain ∧ s'.issued = s.issued + 1
      ∧ v.toInt = (s.issued + 1 : Nat) := by
  have hne : s.increment ≠ 0 := by
    rw [hs.increment]
    decide
  unfold sequenceNextval at h
  rw [Build.assert_of build hne] at h
  simp only [bind, Except.bind, pure, Except.pure] at h
  by_cases hcalled : s.isCalled = 0
  · rw [if_neg (by simpa using hcalled)] at h
    cases h
    have hlast := hs.first hcalled
    refine ⟨_, _, rfl, ⟨hs.increment, hs.maxVal, ?_, ?_⟩, ?_, ?_⟩
    · intro h
      have hone : (1 : Int64) = 0 := h
      exact absurd hone (by decide)
    · intro _
      rw [hlast]
      decide
    · simp [issued, hcalled, hlast]
    · simp [issued, hcalled, hlast]
  · rw [if_pos hcalled] at h
    have hlater := hs.later hcalled
    split at h
    · cases h
    · rename_i newval hnew
      obtain ⟨rfl, hsum⟩ := addInt64_eq_ok.mp hnew
      have hone : s.increment.toInt = 1 := by
        rw [hs.increment]
        rfl
      rw [hone] at hsum
      have hpos : s.increment > 0 := by
        rw [hs.increment]
        decide
      have hle : ¬ s.lastVal + s.increment > s.maxVal := by
        rw [hs.maxVal]
        intro hgt
        have := Int64.lt_iff_toInt_lt.mp hgt
        have := toInt_le_max (s.lastVal + s.increment)
        omega
      rw [if_pos hpos, if_neg hle] at h
      cases h
      refine ⟨_, _, rfl, ⟨hs.increment, hs.maxVal, fun h => absurd h hcalled, ?_⟩, ?_, ?_⟩
      · intro _
        simp only
        omega
      · simp only [issued, if_neg hcalled]
        omega
      · simp only [issued, if_neg hcalled]
        omega

end Sequence
end Scroller

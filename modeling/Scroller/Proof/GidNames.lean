import Mathlib.Tactic.IntervalCases
import Scroller.Files

/-!
# The names of files

The name of a file is its id in ten hexadecimal digits, so that two ids never share a page of a file.
-/

namespace Scroller

/-- The value of a digit. -/
def hexValue (c : UInt8) : UInt8 := if c < 65 then c - 48 else c - 55

theorem hexValue_char2hex (c : UInt8) : hexValue (char2hex c) = c &&& 0xf := by
  have hall : ∀ n : Fin 256, hexValue (char2hex (UInt8.ofNat n)) = UInt8.ofNat n &&& 0xf := by decide +kernel
  have h := hall ⟨c.toNat, c.toNat_lt⟩
  rwa [UInt8.ofNat_toNat] at h

theorem byte_eq_of_digits {a b : UInt8} (hhigh : char2hex (a >>> 4) = char2hex (b >>> 4))
    (hlow : char2hex a = char2hex b) : a = b := by
  have hnibbles : ∀ c : UInt8, c = (c >>> 4 &&& 0xf) <<< 4 ||| (c &&& 0xf) := by
    have hall : ∀ n : Fin 256, UInt8.ofNat n = (UInt8.ofNat n >>> 4 &&& 0xf) <<< 4 ||| (UInt8.ofNat n &&& 0xf) := by
      decide +kernel
    intro c
    have h := hall ⟨c.toNat, c.toNat_lt⟩
    rwa [UInt8.ofNat_toNat] at h
  have hhigh' := congrArg hexValue hhigh
  have hlow' := congrArg hexValue hlow
  rw [hexValue_char2hex, hexValue_char2hex] at hhigh' hlow'
  rw [hnibbles a, hnibbles b, hhigh', hlow']

namespace Gid

theorem toNat_fileId (gid : Gid) : gid.fileId.toNat = gid.full.toNat % 2 ^ 40 := UInt64.toNat_mod _ _

theorem toNat_page (gid : Gid) : gid.page.toNat = gid.full.toNat / 2 ^ 40 := UInt64.toNat_div _ _

theorem toNat_byte (gid : Gid) (i : Nat) : (gid.byte i).toNat = gid.full.toNat / 256 ^ i % 256 := UInt8.toNat_ofNat'

theorem fileId_eq_of_bytes {g g' : Gid} (h : ∀ i < 5, g.byte i = g'.byte i) : g.fileId = g'.fileId := by
  have hbyte : ∀ i < 5, g.full.toNat / 256 ^ i % 256 = g'.full.toNat / 256 ^ i % 256 := by
    intro i hi
    rw [← toNat_byte, ← toNat_byte, h i hi]
  have h0 := hbyte 0 (by omega)
  have h1 := hbyte 1 (by omega)
  have h2 := hbyte 2 (by omega)
  have h3 := hbyte 3 (by omega)
  have h4 := hbyte 4 (by omega)
  apply UInt64.toNat_inj.mp
  rw [toNat_fileId, toNat_fileId]
  simp only [Nat.reducePow] at h0 h1 h2 h3 h4 ⊢
  omega

theorem byte_eq_of_fileId {g g' : Gid} (h : g.fileId = g'.fileId) {i : Nat} (hi : i < 5) : g.byte i = g'.byte i := by
  have hmod := congrArg UInt64.toNat h
  rw [toNat_fileId, toNat_fileId] at hmod
  apply UInt8.toNat_inj.mp
  rw [toNat_byte, toNat_byte]
  interval_cases i <;> omega

theorem ext_parts {g g' : Gid} (hfile : g.fileId = g'.fileId) (hpage : g.page = g'.page) : g = g' := by
  have hmod := congrArg UInt64.toNat hfile
  have hdiv := congrArg UInt64.toNat hpage
  rw [toNat_fileId, toNat_fileId] at hmod
  rw [toNat_page, toNat_page] at hdiv
  cases g
  cases g'
  congr 1
  apply UInt64.toNat_inj.mp
  simp only at hmod hdiv
  omega

end Gid

theorem gid2hex_eq_iff {g g' : Gid} : gid2hex g = gid2hex g' ↔ g.fileId = g'.fileId := by
  have hdigits : ∀ g : Gid, gid2hex g = [char2hex (g.byte 4 >>> 4), char2hex (g.byte 4), char2hex (g.byte 3 >>> 4),
      char2hex (g.byte 3), char2hex (g.byte 2 >>> 4), char2hex (g.byte 2), char2hex (g.byte 1 >>> 4),
      char2hex (g.byte 1), char2hex (g.byte 0 >>> 4), char2hex (g.byte 0)] := fun _ => rfl
  constructor
  · intro h
    rw [hdigits, hdigits] at h
    simp only [List.cons.injEq, and_true] at h
    obtain ⟨h4, l4, h3, l3, h2, l2, h1, l1, h0, l0⟩ := h
    refine Gid.fileId_eq_of_bytes fun i hi => ?_
    interval_cases i
    · exact byte_eq_of_digits h0 l0
    · exact byte_eq_of_digits h1 l1
    · exact byte_eq_of_digits h2 l2
    · exact byte_eq_of_digits h3 l3
    · exact byte_eq_of_digits h4 l4
  · intro h
    rw [hdigits, hdigits]
    simp only [Gid.byte_eq_of_fileId h (show 0 < 5 by decide), Gid.byte_eq_of_fileId h (show 1 < 5 by decide),
      Gid.byte_eq_of_fileId h (show 2 < 5 by decide), Gid.byte_eq_of_fileId h (show 3 < 5 by decide),
      Gid.byte_eq_of_fileId h (show 4 < 5 by decide)]

theorem ne_of_location {g g' : Gid} (h : g ≠ g') : (gid2hex g, g.page) ≠ (gid2hex g', g'.page) := by
  intro heq
  obtain ⟨hname, hpage⟩ := Prod.mk.inj heq
  exact h (Gid.ext_parts (gid2hex_eq_iff.mp hname) hpage)

/-- `fdcache_open` names the file of a page as `gid2hex` does. -/
theorem gid2hex_ofParts_fileId (gid : Gid) : gid2hex (.ofParts gid.fileId 0) = gid2hex gid := by
  apply gid2hex_eq_iff.mpr
  apply UInt64.toNat_inj.mp
  unfold Gid.ofParts Gid.fileId
  simp

end Scroller

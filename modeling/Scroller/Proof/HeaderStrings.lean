import Scroller.Lib.Trimming
import Scroller.Scrc

/-!
# Strings in the receive buffer

`trim` walks forward over spaces and to the end of the string, then back over spaces, and ends the string
there. On a string with something in it the walks stay inside the string. On a blank one the walk back leaves
it to the left, and it has to meet something in front of the string that is not a space.
-/

namespace Scroller

open ByteMemory

/-- A string without the spaces around it, up to its terminator. -/
def trimmed (s : List UInt8) : List UInt8 :=
  ((s.takeWhile (· ≠ 0)).dropWhile isspace).rdropWhile isspace

/-- A string is a part between spaces; a blank one is spaces in front of nothing. -/
theorem exists_trimmed (z : List UInt8) :
    ∃ lead trail, z = lead ++ ((z.dropWhile isspace).rdropWhile isspace ++ trail)
      ∧ (∀ b ∈ lead, isspace b = true) ∧ (∀ b ∈ trail, isspace b = true)
      ∧ ((z.dropWhile isspace).rdropWhile isspace = [] → trail = [])
      ∧ (∀ b ∈ ((z.dropWhile isspace).rdropWhile isspace).head?, isspace b = false)
      ∧ ∀ b ∈ ((z.dropWhile isspace).rdropWhile isspace).getLast?, isspace b = false := by
  obtain ⟨lead, trail, hz, hlead, htrail, hblank⟩ := Trimming.exists_core isspace z
  exact ⟨lead, trail, hz, hlead, htrail, hblank, fun _ hb => Trimming.head?_core hb,
    fun _ hb => Trimming.getLast?_core hb⟩

section Walks

variable {rbuf rbuf' : Nat → UInt8} {p n : Nat}

theorem mem_slice_of_lt {i : Nat} (hi : i < n) : rbuf (p + i) ∈ slice rbuf p n :=
  List.mem_map.mpr ⟨i, List.mem_range.mpr hi, rfl⟩

theorem cStringLoop_eq {left : Nat} (hterm : rbuf (p + n) = 0)
    (hleft : n < left) :
    cStringLoop rbuf left p = .ok ((slice rbuf p n).takeWhile (· ≠ 0)) := by
  induction n generalizing p left with
  | zero =>
      obtain ⟨left, rfl⟩ : ∃ k, left = k + 1 := ⟨left - 1, by omega⟩
      rw [cStringLoop, if_pos (show rbuf p = 0 from hterm)]
      rfl
  | succ n ih =>
      obtain ⟨left, rfl⟩ : ∃ k, left = k + 1 := ⟨left - 1, by omega⟩
      rw [cStringLoop, slice_succ]
      by_cases hzero : rbuf p = 0
      · rw [if_pos hzero, List.takeWhile_cons_of_neg (by simp [hzero])]
        rfl
      · have hnext : p + (n + 1) = p + 1 + n := by omega
        rw [hnext] at hterm
        rw [if_neg hzero, ih hterm (by omega), List.takeWhile_cons_of_pos (by simp [hzero])]
        rfl

theorem cString_eq (hterm : rbuf (p + n) = 0) (hlt : p + n < fullsz) :
    cString rbuf p = .ok ((slice rbuf p n).takeWhile (· ≠ 0)) :=
  cStringLoop_eq hterm (by omega)

theorem forward_eq {go : UInt8 → Bool} {left : Nat} (hgo : ∀ b ∈ slice rbuf p n, go b = true)
    (hstop : go (rbuf (p + n)) = false) (hleft : n < left) :
    forward rbuf go left p = .ok (p + n) := by
  induction n generalizing p left with
  | zero =>
      obtain ⟨left, rfl⟩ : ∃ k, left = k + 1 := ⟨left - 1, by omega⟩
      rw [forward]
      simp only [Nat.add_zero] at hstop
      rw [hstop]
      rfl
  | succ n ih =>
      obtain ⟨left, rfl⟩ : ∃ k, left = k + 1 := ⟨left - 1, by omega⟩
      rw [slice_succ] at hgo
      have hnext : p + (n + 1) = p + 1 + n := by omega
      rw [hnext] at hstop ⊢
      rw [forward, if_pos (hgo _ List.mem_cons_self)]
      exact ih (fun b hb => hgo b (List.mem_cons_of_mem _ hb)) hstop (by omega)

theorem backward_eq {src c k : Nat} (hk : k < c) (hstop : k = src ∨ isspace (rbuf k) = false)
    (hgo : ∀ j, k < j → j < c → j ≠ src ∧ isspace (rbuf j) = true) :
    backward rbuf src c = .ok k := by
  induction c with
  | zero => exact absurd hk (Nat.not_lt_zero k)
  | succ c ih =>
      rw [backward]
      rcases Nat.lt_succ_iff_lt_or_eq.mp hk with hlt | rfl
      · rw [if_pos (hgo c hlt (Nat.lt_succ_self c))]
        exact ih hlt fun j hj hjc => hgo j hj (Nat.lt_succ_of_lt hjc)
      · rw [if_neg]
        · rfl
        · intro hboth
          rcases hstop with heq | hspace
          · exact hboth.1 heq
          · rw [hspace] at hboth
            exact absurd hboth.2 Bool.false_ne_true

/-- In front of something that is not a space there is a last such place. -/
theorem exists_last_not_space {c : Nat} (h : ∃ i < c, isspace (rbuf i) = false) :
    ∃ k < c, isspace (rbuf k) = false ∧ ∀ j, k < j → j < c → isspace (rbuf j) = true := by
  induction c with
  | zero =>
      obtain ⟨i, hi, -⟩ := h
      exact absurd hi (Nat.not_lt_zero i)
  | succ c ih =>
      by_cases hlast : isspace (rbuf c) = false
      · exact ⟨c, Nat.lt_succ_self c, hlast, fun j hj hjc => by omega⟩
      · obtain ⟨i, hi, hspace⟩ := h
        have hne : i ≠ c := fun heq => hlast (heq ▸ hspace)
        obtain ⟨k, hk, hkspace, hbetween⟩ := ih ⟨i, by omega, hspace⟩
        refine ⟨k, by omega, hkspace, fun j hj hjc => ?_⟩
        rcases Nat.lt_succ_iff_lt_or_eq.mp hjc with hlt | rfl
        · exact hbetween j hj hlt
        · exact Bool.eq_true_of_not_eq_false hlast

theorem exists_terminator (hterm : rbuf (p + n) = 0) :
    ∃ e ≤ n, (slice rbuf p n).takeWhile (· ≠ 0) = slice rbuf p e ∧ rbuf (p + e) = 0
      ∧ ∀ b ∈ slice rbuf p e, b ≠ 0 := by
  induction n generalizing p with
  | zero => exact ⟨0, Nat.le_refl 0, rfl, hterm, fun b hb => by cases hb⟩
  | succ n ih =>
      by_cases hzero : rbuf p = 0
      · refine ⟨0, Nat.zero_le _, ?_, hzero, fun b hb => by cases hb⟩
        rw [slice_succ, List.takeWhile_cons_of_neg (by simp [hzero]), slice_zero]
      · have hnext : p + (n + 1) = p + 1 + n := by omega
        rw [hnext] at hterm
        obtain ⟨e, he, htake, hend, hnonzero⟩ := ih hterm
        refine ⟨e + 1, by omega, ?_, ?_, ?_⟩
        · rw [slice_succ, List.takeWhile_cons_of_pos (by simp [hzero]), htake, slice_succ]
        · rw [show p + (e + 1) = p + 1 + e by omega]
          exact hend
        · intro b hb
          rw [slice_succ] at hb
          rcases List.mem_cons.mp hb with rfl | hb
          · exact hzero
          · exact hnonzero b hb

theorem slice_eq_append₃ {a b c : List UInt8} (h : slice rbuf p n = a ++ (b ++ c)) :
    n = a.length + (b.length + c.length) ∧ slice rbuf p a.length = a
      ∧ slice rbuf (p + a.length) b.length = b
      ∧ slice rbuf (p + a.length + b.length) c.length = c := by
  have hn : n = a.length + (b.length + c.length) := by
    have hlen := congrArg List.length h
    simpa using hlen
  rw [hn, slice_add, slice_add] at h
  obtain ⟨ha, hrest⟩ := List.append_inj h (length_slice _ _ _)
  obtain ⟨hb, hc⟩ := List.append_inj hrest (length_slice _ _ _)
  exact ⟨hn, ha, hb, hc⟩

end Walks

/-! ### Trimming -/

/-- The walk back of `trim` stays in the buffer: the string from `start` is empty, or something in front of
its end is not a space. -/
def TrimsInside (rbuf : Nat → UInt8) (start p : Nat) : Prop :=
  let z := (slice rbuf start (p - start)).takeWhile (· ≠ 0)
  z = [] ∨ ∃ i < start + z.length, isspace (rbuf i) = false

theorem isspace_zero : isspace 0 = false := by decide

section Trim

variable {rbuf : Nat → UInt8} {p n : Nat}

/-- The walks of `trim` on a string `lead ++ mid ++ trail` with spaces around `mid`: the second `0` is written
behind the place `k` the last walk finds. -/
theorem trim_eq {l m t k : Nat} (hlt : p + (l + (m + t)) < fullsz) (hne : 0 < l + (m + t))
    (hterm : rbuf (p + (l + (m + t))) = 0)
    (hchars : ∀ b ∈ slice rbuf p (l + (m + t)), b ≠ 0 ∧ b ≠ 10)
    (hlead : ∀ b ∈ slice rbuf p l, isspace b = true) (hmid : isspace (rbuf (p + l)) = false)
    (hk : k < p + (l + (m + t))) (hstop : k = p + l ∨ isspace (rbuf k) = false)
    (hback : ∀ j, k < j → j < p + (l + (m + t)) → j ≠ p + l ∧ isspace (rbuf j) = true) :
    trim rbuf p = .ok (Function.update rbuf (k + 1) 0, p + l) := by
  have hfirst : rbuf p ≠ 0 := (hchars _ (mem_slice_of_lt (i := 0) hne)).1
  have hbegin : forward rbuf isspace (fullsz - p) p = .ok (p + l) :=
    forward_eq hlead hmid (by omega)
  have hend : forward rbuf (fun b => b ≠ 0 && b ≠ 10) (fullsz - (p + l)) (p + l)
      = .ok (p + (l + (m + t))) := by
    have hsplit := slice_add rbuf p l (m + t)
    have hwalk : forward rbuf (fun b => b ≠ 0 && b ≠ 10) (fullsz - (p + l)) (p + l)
        = .ok (p + l + (m + t)) := by
      apply forward_eq
      · intro b hb
        have hboth := hchars b (by rw [hsplit]; exact List.mem_append_right _ hb)
        simp [hboth.1, hboth.2]
      · rw [Nat.add_assoc, hterm]
        rfl
      · omega
    rwa [Nat.add_assoc p l (m + t)] at hwalk
  rw [trim, if_neg (by omega), if_neg hfirst, hbegin]
  simp only [bind, Except.bind, hend, backward_eq hk hstop hback]
  rfl

/-- **Trimming.** On the bytes of a line up to their terminator `trim` returns the trimmed string. It writes
inside the string, or in front of it where the string is blank and has a space in front. -/
theorem trim_spec (hlt : p + n < fullsz) (hterm : rbuf (p + n) = 0)
    (hline : ∀ b ∈ slice rbuf p n, b ≠ 10) (hinside : TrimsInside rbuf p (p + n)) :
    ∃ rbuf' src, trim rbuf p = .ok (rbuf', src)
      ∧ cString rbuf' src = .ok (trimmed (slice rbuf p n))
      ∧ p ≤ src ∧ src ≤ p + n ∧ rbuf' (p + n) = 0 ∧ (∀ i, p + n < i → rbuf' i = rbuf i)
      ∧ ∀ q, p = q + 1 → isspace (rbuf q) = false → ∀ i < p, rbuf' i = rbuf i := by
  obtain ⟨e, hle, htake, hend, hnonzero⟩ := exists_terminator hterm
  rw [TrimsInside, Nat.add_sub_cancel_left, htake, length_slice] at hinside
  rw [trimmed, htake]
  have hchars : ∀ b ∈ slice rbuf p e, b ≠ 0 ∧ b ≠ 10 := by
    intro b hb
    refine ⟨hnonzero b hb, hline b ?_⟩
    rw [← take_slice rbuf p hle] at hb
    exact List.mem_of_mem_take hb
  rcases Nat.eq_zero_or_pos e with rfl | hpos
  · -- the string is empty, and `trim` returns at once
    refine ⟨rbuf, p, ?_, ?_, Nat.le_refl p, Nat.le_add_right p n, hterm, fun _ _ => rfl,
      fun _ _ _ _ _ => rfl⟩
    · rw [trim, if_neg (by omega), if_pos (show rbuf p = 0 from hend)]
      rfl
    · exact cString_eq hend (by omega)
  · obtain ⟨lead, trail, hz, hlead, htrail, hblank, hfirst, hlast⟩ := exists_trimmed (slice rbuf p e)
    set mid := ((slice rbuf p e).dropWhile isspace).rdropWhile isspace with hmid
    obtain ⟨he, hl, hm, ht⟩ := slice_eq_append₃ hz
    rw [he] at hend hle hpos hchars hinside
    rcases Nat.eq_zero_or_pos mid.length with hzero | hsome
    · -- the string is blank, and the walk back ends in front of it
      have hmidnil := List.length_eq_zero_iff.mp hzero
      have htrailnil := hblank hmidnil
      simp only [hzero, htrailnil, List.length_nil, Nat.add_zero] at hend hle hpos hchars hinside
      have hspaces : ∀ i < lead.length, isspace (rbuf (p + i)) = true := by
        intro i hi
        apply hlead
        rw [← hl]
        exact mem_slice_of_lt hi
      have hfront : ∃ i < p + lead.length, isspace (rbuf i) = false := by
        rcases hinside with hnil | hfront
        · have hlen := congrArg List.length hnil
          rw [length_slice, List.length_nil] at hlen
          omega
        · exact hfront
      obtain ⟨k, hk, hkspace, hbetween⟩ := exists_last_not_space hfront
      have hkp : k < p := by
        by_contra hge
        have hspace := hspaces (k - p) (by omega)
        rw [show p + (k - p) = k by omega, hkspace] at hspace
        cases hspace
      have htrim := @trim_eq rbuf p lead.length 0 0 k (by omega) hpos hend hchars
        (by rwa [hl]) (by rw [hend]; rfl) hk (Or.inr hkspace)
        (fun j hj hje => ⟨by omega, hbetween j hj hje⟩)
      have hupdate : ∀ i, rbuf i = 0 → Function.update rbuf (k + 1) 0 i = 0 := by
        intro i hi
        rw [Function.update_apply]
        split
        · rfl
        · exact hi
      refine ⟨_, _, htrim, ?_, Nat.le_add_right _ _, by omega, hupdate _ hterm, ?_, ?_⟩
      · rw [hmidnil]
        exact cString_eq (n := 0) (hupdate _ hend) (by omega)
      · intro i hi
        exact Function.update_of_ne (by omega) _ _
      · intro q hq hspace i hi
        have hkq : k = q := by
          by_contra hne
          have hcontra := hbetween q (by omega) (by omega)
          rw [hspace] at hcontra
          cases hcontra
        exact Function.update_of_ne (by omega) _ _
    · -- the walk back ends at the last character of `mid`
      have hchar : ∀ i (hi : i < mid.length), rbuf (p + lead.length + i) = mid[i] := by
        intro i hi
        have hget := List.getElem_of_eq hm (i := i) (by rwa [length_slice])
        rwa [getElem_slice] at hget
      have hmidfirst : isspace (rbuf (p + lead.length)) = false := by
        have hhead := hchar 0 hsome
        rw [Nat.add_zero] at hhead
        rw [hhead]
        apply hfirst
        rw [Option.mem_def, List.head?_eq_getElem?, List.getElem?_eq_getElem hsome]
      have hmidlast : isspace (rbuf (p + lead.length + (mid.length - 1))) = false := by
        rw [hchar _ (by omega)]
        apply hlast
        rw [Option.mem_def, List.getLast?_eq_getElem?, List.getElem?_eq_getElem (by omega)]
      have hmidchars : ∀ b ∈ mid, b ≠ 0 := by
        intro b hb
        apply (hchars b _).1
        rw [← he, hz]
        exact List.mem_append_right _ (List.mem_append_left _ hb)
      have htrim := @trim_eq rbuf p lead.length mid.length trail.length
        (p + lead.length + (mid.length - 1)) (by omega) hpos hend hchars (by rwa [hl]) hmidfirst
        (by omega) (Or.inr hmidlast) (fun j hj hje => by
          refine ⟨by omega, htrail _ ?_⟩
          rw [← ht, show j = p + lead.length + mid.length
            + (j - (p + lead.length + mid.length)) by omega]
          exact mem_slice_of_lt (by omega))
      have hwrite : p + lead.length + (mid.length - 1) + 1 = p + lead.length + mid.length := by omega
      rw [hwrite] at htrim
      refine ⟨_, _, htrim, ?_, Nat.le_add_right _ _, by omega, ?_, ?_, ?_⟩
      · have hstring := @cString_eq (Function.update rbuf (p + lead.length + mid.length) 0)
          (p + lead.length) mid.length (Function.update_self _ _ _) (by omega)
        have hsame : slice (Function.update rbuf (p + lead.length + mid.length) 0) (p + lead.length)
            mid.length = mid := by
          refine (slice_congr fun i hi => ?_).trans hm
          exact Function.update_of_ne (by omega) _ _
        rw [hstring, hsame, List.takeWhile_eq_self_iff.mpr]
        intro b hb
        simpa using hmidchars b hb
      · rw [Function.update_apply]
        split
        · rfl
        · exact hterm
      · intro i hi
        exact Function.update_of_ne (by omega) _ _
      · intro q hq hspace i hi
        exact Function.update_of_ne (by omega) _ _

end Trim

end Scroller

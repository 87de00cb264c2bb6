import Scroller.Proof.Decoding

/-!
# Header lines

While `recv_header_line` reads a line, it holds a pointer to the start of the line and one to the name. They
stay good as long as no refill compacts the buffer: the pointers are not moved with the bytes. A refill inside
a line compacts where the buffer is filled beyond `BUFSZ`.
-/

namespace Scroller.ScrcConnection

open ByteMemory

/-- A refill that the next byte needs does not compact the buffer. -/
def Stays (conn : ScrcConnection) : Prop := conn.rpos = conn.rlen → conn.rlen ≤ bufsz

/-- The loop of `recv_header_line` reads the rest of a line without compacting the buffer, and `trim` stays
inside the buffer. -/
def LineKept : Nat → ScrcConnection → Nat → Prop
  | 0, _, _ => True
  | room + 1, conn, start =>
      conn.Stays ∧
        match conn.recvBlock 1 with
        | .ok (conn, .ok p) =>
            if conn.rbuf p = 58 then
              TrimsInside (Function.update conn.rbuf p 0) start p
                ∧ ∀ rbuf src, trim (Function.update conn.rbuf p 0) start = .ok (rbuf, src) →
                    LineKept room { conn with rbuf } (p + 1)
            else if conn.rbuf p = 10 then TrimsInside (Function.update conn.rbuf p 0) start p
            else LineKept room conn start
        | _ => True

section Lines

variable {conn : ScrcConnection}

/-- A byte that is read without compaction: what was read before stays where it is. -/
theorem recvBlock_one (h : conn.Healthy) (hstays : conn.Stays) {conn' : ScrcConnection} {p : Nat}
    (hblock : conn.recvBlock 1 = .ok (conn', .ok p)) :
    p = conn.rpos ∧ conn'.rpos = conn.rpos + 1 ∧ ∀ i < conn.rpos, conn'.rbuf i = conn.rbuf i := by
  have hone : ¬ bufsz < 1 := by decide
  have hpos := h.bounded.rpos_le
  unfold recvBlock at hblock
  rw [if_neg hone] at hblock
  by_cases hwait : conn.rlen - conn.rpos < 1
  · have hempty : conn.rpos = conn.rlen := by omega
    have hspace : 0 < bufsz := by decide
    obtain ⟨conn₁, r, hrefill, hkept, hr⟩ := recvRefill_spec h.bounded (by omega)
    rw [recvBlockLoop, if_pos hwait, hrefill] at hblock
    cases r with
    | error ret => cases hblock
    | ok _ =>
        have hgrown : conn.rlen - conn.rpos < conn₁.rlen - conn₁.rpos := hr
        simp only [recvBlockLoop] at hblock
        rw [if_neg (by omega)] at hblock
        cases hblock
        rw [recvRefill, compact_of_le (hstays hempty)] at hrefill
        generalize recvLoop (fullsz - conn.rlen) conn.sockfd.arriving conn.sockfd.outcomes
          conn.sockfd.asked = result at hrefill
        obtain ⟨sockfd, ret | bytes⟩ := result
        · cases hrefill
        · cases hrefill
          refine ⟨rfl, rfl, fun i hi => ?_⟩
          exact write_of_lt (by omega)
  · rw [recvBlockLoop, if_neg hwait] at hblock
    cases hblock
    exact ⟨rfl, rfl, fun _ _ => rfl⟩

theorem view_congr {rbuf : Nat → UInt8} (h : ∀ i, conn.rpos ≤ i → rbuf i = conn.rbuf i) :
    view { conn with rbuf } = conn.view := by
  rw [view, view]
  congr 1
  apply slice_congr
  intro i hi
  exact h _ (Nat.le_add_right _ _)

/-- Writing to what was read changes nothing a caller knows. -/
theorem Unchanged.write {conn' : ScrcConnection} (h : Unchanged conn conn') {rbuf : Nat → UInt8}
    (hsame : ∀ i, conn'.rpos ≤ i → rbuf i = conn'.rbuf i) : Unchanged conn { conn' with rbuf } :=
  ⟨⟨⟨h.healthy.bounded.rpos_le, h.healthy.bounded.rlen_le⟩, h.healthy.succeeds⟩,
    by rw [view_congr hsame]; exact h.front, h.status, h.columns, h.body⟩

/-- A string ends in front of where it is known to be followed by a terminator. -/
theorem cString_congr {rbuf rbuf' : Nat → UInt8} {p q : Nat} (hle : p ≤ q) (hlt : q < fullsz)
    (hterm : rbuf q = 0) (hsame : ∀ i ≤ q, rbuf' i = rbuf i) : cString rbuf' p = cString rbuf p := by
  have hq : p + (q - p) = q := by omega
  rw [@cString_eq rbuf' p (q - p) (by rw [hq, hsame q (Nat.le_refl q), hterm]) (by omega),
    @cString_eq rbuf p (q - p) (by rw [hq, hterm]) (by omega)]
  congr 2
  apply slice_congr
  intro i hi
  exact hsame _ (by omega)

/-- A pointer that may be missing points at a string that may be missing. -/
def PointsAt (rbuf : Nat → UInt8) : Option Nat → Option (List UInt8) → Prop
  | none, none => True
  | some p, some s => cString rbuf p = .ok s
  | _, _ => False

/-- The line behind two pointers is the line that was decoded. -/
def LineAgrees (rbuf : Nat → UInt8) :
    Except UInt32 HeaderLine → Except UInt32 (List UInt8 × Option (List UInt8)) → Prop
  | .error ret, .error ret' => ret = ret'
  | .ok hl, .ok (name, value) => cString rbuf hl.name = .ok name ∧ PointsAt rbuf hl.value value
  | _, _ => False

/-- The name found so far lies in front of the rest of the line, with its terminator. -/
def NameKept (rbuf : Nat → UInt8) (start : Nat) (name : Option Nat) (s : Option (List UInt8)) : Prop :=
  PointsAt rbuf name s ∧ ∀ p, name = some p → ∃ q, start = q + 1 ∧ p ≤ q ∧ rbuf q = 0

theorem NameKept.congr {rbuf rbuf' : Nat → UInt8} {start : Nat} {name : Option Nat}
    {s : Option (List UInt8)} (h : NameKept rbuf start name s) (hlt : start ≤ fullsz)
    (hsame : ∀ i < start, rbuf' i = rbuf i) : NameKept rbuf' start name s := by
  obtain ⟨hpoints, hterm⟩ := h
  cases name with
  | none =>
      refine ⟨?_, fun p hp => by cases hp⟩
      cases s with
      | none => exact trivial
      | some s => exact hpoints
  | some p =>
      obtain ⟨q, rfl, hpq, hzero⟩ := hterm p rfl
      have hsame' : ∀ i ≤ q, rbuf' i = rbuf i := fun i hi => hsame i (Nat.lt_succ_of_le hi)
      refine ⟨?_, fun p' hp => ?_⟩
      · cases s with
        | none => exact hpoints
        | some s => exact (cString_congr hpq hlt hzero hsame').trans hpoints
      · cases hp
        exact ⟨q, rfl, hpq, (hsame' q (Nat.le_refl q)).trans hzero⟩

/-- What `trim` does to the part of a line in front of the delimiter at `p`. -/
theorem trim_line {rbuf rbuf₁ : Nat → UInt8} {start p : Nat} {cur : List UInt8} (hstart : start ≤ p)
    (hlt : p < fullsz) (hcur : slice rbuf start (p - start) = cur) (hline : ∀ b ∈ cur, b ≠ 10)
    (hsame : ∀ i < p, rbuf₁ i = rbuf i)
    (hinside : TrimsInside (Function.update rbuf₁ p 0) start p) :
    ∃ rbuf' src, trim (Function.update rbuf₁ p 0) start = .ok (rbuf', src)
      ∧ cString rbuf' src = .ok (trimmed cur) ∧ src ≤ p ∧ rbuf' p = 0
      ∧ (∀ i, p < i → rbuf' i = rbuf₁ i)
      ∧ ∀ q, start = q + 1 → rbuf q = 0 → ∀ i < start, rbuf' i = rbuf i := by
  have hp : start + (p - start) = p := by omega
  have hbelow : ∀ i < p, Function.update rbuf₁ p 0 i = rbuf i := fun i hi =>
    (Function.update_of_ne (Nat.ne_of_lt hi) _ _).trans (hsame i hi)
  have hslice : slice (Function.update rbuf₁ p 0) start (p - start) = cur :=
    (slice_congr fun i hi => hbelow _ (by omega)).trans hcur
  obtain ⟨rbuf', src, htrim, hstring, -, hle, hterm, habove, hfront⟩ :=
    @trim_spec (Function.update rbuf₁ p 0) start (p - start) (by omega)
      (by rw [hp, Function.update_self]) (by rwa [hslice]) (by rwa [hp])
  rw [hp] at hle hterm habove
  refine ⟨rbuf', src, htrim, by rw [hstring, hslice], hle, hterm, fun i hi => ?_, ?_⟩
  · exact (habove i hi).trans (Function.update_of_ne (Nat.ne_of_gt hi) _ _)
  · intro q hq hzero i hi
    have hspace : isspace (Function.update rbuf₁ p 0 q) = false := by
      rw [hbelow q (by omega), hzero]
      exact isspace_zero
    exact (hfront q hq hspace i hi).trans (hbelow i (by omega))

/-- **A line.** Where nothing is compacted, the loop decodes the rest of a line of which it has read `cur`. -/
theorem headerLineLoop_decodes (room : Nat) {start : Nat} {name : Option Nat}
    {s : Option (List UInt8)} {cur : List UInt8} (h : conn.Healthy) (hkept : LineKept room conn start)
    (hstart : start ≤ conn.rpos) (hcur : slice conn.rbuf start (conn.rpos - start) = cur)
    (hline : ∀ b ∈ cur, b ≠ 10) (hname : NameKept conn.rbuf start name s) :
    ∃ conn' r, headerLineLoop room conn start name = .ok (conn', r) ∧ Unchanged conn conn'
      ∧ conn'.view = (Decoder.lineLoop room conn.view cur s).2
      ∧ LineAgrees conn'.rbuf r (Decoder.lineLoop room conn.view cur s).1 := by
  induction room generalizing conn start name s cur with
  | zero => exact ⟨conn, _, rfl, ⟨h, Nat.le_refl _, rfl, rfl, rfl⟩, rfl, rfl⟩
  | succ room ih =>
      obtain ⟨hstays, hrest⟩ := hkept
      obtain ⟨conn₁, r, hblock, hunchanged, hview, hbytes, -⟩ := recvBlock_decodes h 1
      rw [hblock] at hrest
      rw [headerLineLoop, hblock]
      have hone : ¬ bufsz < 1 := by decide
      rw [Decoder.block, if_neg hone] at hview hbytes
      cases hstream : conn.view with
      | nil =>
          rw [hstream, if_pos (show ([] : List UInt8).length < 1 from Nat.zero_lt_one)] at hview hbytes
          cases r with
          | ok p => cases hbytes
          | error ret =>
              cases hbytes
              exact ⟨conn₁, _, rfl, hunchanged, hview, rfl⟩
      | cons b rest =>
          rw [hstream, if_neg (show ¬ (b :: rest).length < 1 by simp)] at hview hbytes
          cases r with
          | error ret => cases hbytes
          | ok p =>
              obtain ⟨rfl, hpos, hsame⟩ := recvBlock_one h hstays hblock
              have hb : conn₁.rbuf conn.rpos = b := by
                have hhead : slice conn₁.rbuf conn.rpos 1 = [b] := Except.ok.inj hbytes
                rw [slice_succ] at hhead
                exact (List.cons.inj hhead).1
              have hlt : conn.rpos < fullsz := by
                have hle := hunchanged.healthy.bounded.rpos_le
                have hfull := hunchanged.healthy.bounded.rlen_le
                omega
              have hrest' : conn₁.view = rest := hview
              simp only [bind, Except.bind, Decoder.lineLoop, hb] at hrest ⊢
              by_cases hcolon : b = 58
              · rw [if_pos hcolon] at hrest ⊢
                rw [if_pos hcolon]
                obtain ⟨rbuf', src, htrim, hstring, hle, hterm, habove, -⟩ :=
                  trim_line hstart hlt hcur hline hsame hrest.1
                have hbehind : ∀ i, conn₁.rpos ≤ i → rbuf' i = conn₁.rbuf i :=
                  fun i hi => habove i (by omega)
                have hview' := (view_congr hbehind).trans hrest'
                have hedited := hunchanged.write hbehind
                rw [htrim, ← hview', ← hpos]
                have hkept' := hrest.2 rbuf' src htrim
                rw [← hpos] at hkept'
                obtain ⟨conn', r', hloop, hunchanged', hview'', hagrees⟩ :=
                  @ih { conn₁ with rbuf := rbuf' } conn₁.rpos (some src) (some (trimmed cur)) []
                    hedited.healthy hkept' (Nat.le_refl _)
                    (by rw [Nat.sub_self]; rfl) (by simp)
                    ⟨hstring, fun p hp => ⟨conn.rpos, hpos, by cases hp; exact hle, hterm⟩⟩
                exact ⟨conn', r', hloop, hedited.trans hunchanged', hview'', hagrees⟩
              · rw [if_neg hcolon] at hrest ⊢
                rw [if_neg hcolon]
                by_cases hnewline : b = 10
                · rw [if_pos hnewline] at hrest ⊢
                  rw [if_pos hnewline]
                  obtain ⟨rbuf', src, htrim, hstring, hle, hterm, habove, hfront⟩ :=
                    trim_line hstart hlt hcur hline hsame hrest
                  have hbehind : ∀ i, conn₁.rpos ≤ i → rbuf' i = conn₁.rbuf i :=
                    fun i hi => habove i (by omega)
                  have hview' := (view_congr hbehind).trans hrest'
                  have hedited := hunchanged.write hbehind
                  rw [htrim]
                  cases name with
                  | none =>
                      cases s with
                      | some s => exact hname.1.elim
                      | none => exact ⟨_, _, rfl, hedited, hview', hstring, trivial⟩
                  | some nm =>
                      cases s with
                      | none => exact hname.1.elim
                      | some s =>
                          obtain ⟨q, hq, -, hzero⟩ := hname.2 nm rfl
                          have hname' := hname.congr (by omega) (hfront q hq hzero)
                          exact ⟨_, _, rfl, hedited, hview', hname'.1, hstring⟩
                · rw [if_neg hnewline] at hrest ⊢
                  rw [if_neg hnewline]
                  have hcur' : slice conn₁.rbuf start (conn₁.rpos - start) = cur ++ [b] := by
                    rw [hpos, show conn.rpos + 1 - start = conn.rpos - start + 1 by omega,
                      slice_concat, show start + (conn.rpos - start) = conn.rpos by omega, hb, ← hcur]
                    congr 1
                    exact slice_congr fun i hi => hsame _ (by omega)
                  have hline' : ∀ c ∈ cur ++ [b], c ≠ 10 := by
                    intro c hc
                    rcases List.mem_append.mp hc with hc | hc
                    · exact hline c hc
                    · rwa [List.mem_singleton.mp hc]
                  obtain ⟨conn', r', hloop, hunchanged', hview', hagrees⟩ :=
                    ih hunchanged.healthy hrest (by omega) hcur' hline'
                      (hname.congr (by omega) fun i hi => hsame i (by omega))
                  rw [hrest'] at hview' hagrees
                  exact ⟨conn', r', hloop, hunchanged.trans hunchanged', hview', hagrees⟩

end Lines

end Scroller.ScrcConnection

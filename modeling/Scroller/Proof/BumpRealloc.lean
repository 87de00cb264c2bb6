import Scroller.Proof.BumpBlocks

/-!
# A realloc that fails

`bump_context_realloc` rewinds the mark to a block at the tail before it knows whether there is room for it. When
there is none, the block lies above the mark, where the next allocations go. Every other block stays alive.
-/

namespace Scroller

namespace BumpRun

variable {build : Build} {s : BumpRun} {m m' : BumpRegion} {live : List (Nat × Nat)} {p n sz : Nat}

/-- The block ends at the mark. -/
def IsTail (m : BumpRegion) (p : Nat) : Prop := p + m.headerSize p = m.current

/-- A block is still allocated behind a call: its bytes and the mark are the same, and whatever is allocated
later lies apart from it. -/
structure StaysAlive (build : Build) (s : BumpRun) (m' : BumpRegion) (p : Nat) : Prop where
  block : s.mem.SameBlock m' p
  mark : m'.current = s.mem.current
  later : ∀ (szs : List Nat) (s' : BumpRun) (hist : List (BumpOp × Option Nat)),
    Machine.exec (BumpRun.step build) ⟨m', s.live⟩ (szs.map BumpOp.alloc) = .ok (s', hist) →
      ∀ sz q, (BumpOp.alloc sz, some q) ∈ hist →
        p + s.mem.headerSize p ≤ q - sizeofBumpContextHeader ∨ q + sz ≤ p - sizeofBumpContextHeader

/-- The mark goes up only, by any allocation, and the block starts there. -/
theorem alloc_above {r : Option Nat} (hmark : m.current ≤ m.size.toNat)
    (h : m.alloc build sz = .ok (m', r)) :
    m.current ≤ m'.current ∧ m'.current ≤ m'.size.toNat
      ∧ ∀ q, r = some q → q = m.current + sizeofBumpContextHeader := by
  have hsize := m.size.toNat_lt
  rw [BumpRegion.alloc] at h
  by_cases hsz : sz = 0
  · rw [if_pos hsz] at h
    cases h
    refine ⟨Nat.le_refl _, hmark, ?_⟩
    intro q hq
    cases hq
  · rw [if_neg hsz] at h
    obtain ⟨-, -, h⟩ := bind_eq_ok.mp h
    generalize htotal : (alignMaxWord sz + sizeofBumpContextHeader) % 2 ^ 64 = totalsz at h
    by_cases hroom : (m.size.toNat + 2 ^ 64 - m.current) % 2 ^ 64 < totalsz
    · rw [if_pos hroom] at h
      cases h
      refine ⟨Nat.le_refl _, hmark, ?_⟩
      intro q hq
      cases hq
    · rw [if_neg hroom] at h
      obtain ⟨-, -, h⟩ := bind_eq_ok.mp h
      cases h
      have hcurrent : (m.current + totalsz) % 2 ^ 64 = m.current + totalsz :=
        Nat.mod_eq_of_lt (by omega)
      dsimp only
      rw [hcurrent]
      refine ⟨by omega, by omega, ?_⟩
      intro q hq
      cases hq
      rfl

theorem allocs_above {szs : List Nat} {s s' : BumpRun} {hist : List (BumpOp × Option Nat)}
    (hmark : s.mem.current ≤ s.mem.size.toNat)
    (h : Machine.exec (BumpRun.step build) s (szs.map BumpOp.alloc) = .ok (s', hist)) :
    ∀ sz q, (BumpOp.alloc sz, some q) ∈ hist → s.mem.current ≤ q - sizeofBumpContextHeader := by
  induction szs generalizing s hist with
  | nil =>
      cases h
      exact fun _ _ hmem => nomatch hmem
  | cons sz szs ih =>
      obtain ⟨s₁, r, rest, hstep, hrest, rfl⟩ := Machine.exec_cons_eq_ok.mp h
      obtain ⟨⟨mem, r'⟩, halloc, hret⟩ := bind_eq_ok.mp hstep
      cases hret
      obtain ⟨hle, hmark', hq⟩ := alloc_above hmark halloc
      intro sz' q hmem
      rcases List.mem_cons.mp hmem with heq | hmem
      · cases heq
        rw [hq q rfl, Nat.add_sub_cancel]
      · exact Nat.le_trans hle (ih hmark' hrest sz' q hmem)

theorem alignMaxWord_wraps {sz : UInt64} (h : ¬ FitsWord sz.toNat) :
    alignMaxWord sz.toNat = 0 ∨ alignMaxWord sz.toNat = 2 ^ 64 - 16 := by
  have hsz := sz.toNat_lt
  rw [FitsWord, alignMax, sizeofBumpContextHeader] at h
  rw [alignMaxWord]
  omega

theorem alloc_wraps (m m' : BumpRegion) : m.alloc build (2 ^ 64 - 16) ≠ .ok (m', none) := by
  intro h
  have hword : alignMaxWord (2 ^ 64 - 16) = 2 ^ 64 - 16 := by decide
  have htotal : (2 ^ 64 - 16 + sizeofBumpContextHeader) % 2 ^ 64 = 0 := by decide
  rw [BumpRegion.alloc, if_neg (by decide), hword] at h
  dsimp only at h
  rw [htotal, if_neg (Nat.not_lt_zero _)] at h
  obtain ⟨-, -, h⟩ := bind_eq_ok.mp h
  obtain ⟨-, -, h⟩ := bind_eq_ok.mp h
  cases h

theorem fits_of_null {sz : UInt64} (h : Sound build ⟨m, live⟩) (hp : (p, n) ∈ live)
    (hsz : sz.toNat ≠ 0) (hnull : m.realloc build (some p) sz.toNat = .ok (m', none)) :
    FitsWord sz.toNat := by
  by_contra hwraps
  obtain ⟨-, hheader, hcurrent⟩ := h.asserts hp
  unfold BumpRegion.realloc at hnull
  dsimp only at hnull
  obtain ⟨-, -, hnull⟩ := bind_eq_ok.mp hnull
  obtain ⟨-, -, hnull⟩ := bind_eq_ok.mp hnull
  rw [if_neg hsz] at hnull
  obtain ⟨-, -, hnull⟩ := bind_eq_ok.mp hnull
  obtain ⟨-, -, hnull⟩ := bind_eq_ok.mp hnull
  rcases alignMaxWord_wraps hwraps with hword | hword
  · rw [hword, if_neg (Nat.not_lt_zero _)] at hnull
    cases hnull
  · rw [hword] at hnull
    by_cases hlt : m.headerSize p < 2 ^ 64 - 16
    · rw [if_pos hlt] at hnull
      obtain ⟨⟨m₁, np⟩, halloc, hnull⟩ := bind_eq_ok.mp hnull
      cases np with
      | none => exact alloc_wraps _ _ halloc
      | some np =>
          dsimp only at hnull
          by_cases hsame : np = p
          · rw [if_pos hsame] at hnull
            cases hnull
          · rw [if_neg hsame] at hnull
            obtain ⟨m₂, -, hnull⟩ := bind_eq_ok.mp hnull
            cases hnull
    · rw [if_neg hlt] at hnull
      cases hnull

theorem Sound.staysAlive_iff (h : s.Sound build) (hp : (p, n) ∈ s.live) (hsz : sz ≠ 0)
    (hfits : FitsWord sz) (hnull : s.mem.realloc build (some p) sz = .ok (m', none)) :
    StaysAlive build s m' p ↔ ¬ IsTail s.mem p := by
  obtain ⟨m, live⟩ := s
  have hlt : m.headerSize p < alignMax sz := by
    by_contra hle
    rw [realloc_same h hp hsz hfits (Nat.not_lt.mp hle)] at hnull
    cases hnull
  constructor
  · intro halive htail
    have habove := h.above _ hp
    have hbelow := h.below _ hp
    have hpos := (h.large _ hp).1
    have hmark := halive.mark
    dsimp only at habove hbelow hpos hmark
    have hrewound : m.rewind p = m' := by
      rw [realloc_tail h hp hsz hfits hlt htail] at hnull
      generalize m.rewind p = m₀ at hnull
      split at hnull
      · exact congrArg Prod.fst (Except.ok.inj hnull)
      · exact absurd (congrArg Prod.snd (Except.ok.inj hnull)) (Option.some_ne_none p)
    rw [← hrewound, rewind_tail h htail] at hmark
    dsimp only at hmark
    have hsize : sizeofBumpContextHeader = 16 := rfl
    omega
  · intro htail
    rw [realloc_move h hp hsz hfits hlt htail] at hnull
    split at hnull
    · cases hnull
      refine { block := fun _ _ _ => rfl, mark := rfl, later := ?_ }
      intro szs s' hist hexec sz' q hmem
      have hmark := h.mark_le
      have hbelow := h.below _ hp
      have habove := allocs_above hmark hexec sz' q hmem
      dsimp only at hbelow habove ⊢
      exact Or.inl (Nat.le_trans hbelow habove)
    · cases hnull

/-! ### Runs -/

/-- A run of allowed calls in which no `realloc` of the tail fails. -/
def CarefulRun (build : Build) (s : BumpRun) (ops : List BumpOp) : Prop :=
  Machine.Along (BumpRun.step build) (fun s op => s.Allowed op
    ∧ ∀ p sz s', op = .realloc (some p) sz → sz ≠ 0 → BumpRun.step build s op = .ok (s', none) →
      ¬ IsTail s.mem p) s ops

/-- A block that is not the tail cannot be moved: nothing changes. -/
theorem Sound.failed (h : s.Sound build) (hp : (p, n) ∈ s.live) (hsz : sz ≠ 0) (hfits : FitsWord sz)
    (htail : ¬ IsTail s.mem p) {s' : BumpRun}
    (hstep : BumpRun.step build s (.realloc (some p) sz) = .ok (s', none)) : s' = s := by
  obtain ⟨m, live⟩ := s
  by_cases hlt : m.headerSize p < alignMax sz
  · have hmove := realloc_move h hp hsz hfits hlt htail
    by_cases hroom : m.size.toNat < m.current + (alignMax sz + sizeofBumpContextHeader)
    · rw [if_pos hroom] at hmove
      rw [@step_realloc_none build ⟨m, live⟩ m p sz hmove, if_neg hsz] at hstep
      exact (congrArg Prod.fst (Except.ok.inj hstep)).symm
    · rw [if_neg hroom] at hmove
      rw [@step_realloc_some build ⟨m, live⟩ _ p _ sz hmove] at hstep
      exact absurd (congrArg Prod.snd (Except.ok.inj hstep)) (Option.some_ne_none _)
  · have hsame := realloc_same h hp hsz hfits (Nat.not_lt.mp hlt)
    rw [@step_realloc_some build ⟨m, live⟩ m p p sz hsame] at hstep
    exact absurd (congrArg Prod.snd (Except.ok.inj hstep)) (Option.some_ne_none _)

theorem Sound.exec_careful {ops : List BumpOp} (h : s.Sound build) (hrun : CarefulRun build s ops) :
    ∃ s' hist, Machine.exec (BumpRun.step build) s ops = .ok (s', hist) ∧ s'.Sound build := by
  have hstep : ∀ (s : BumpRun) (_ : Unit) (op : BumpOp), s.Sound build →
      (s.Allowed op ∧ ∀ p sz s', op = .realloc (some p) sz → sz ≠ 0 →
        BumpRun.step build s op = .ok (s', none) → ¬ IsTail s.mem p) →
      ∃ s' r, ∃ _ : Unit, BumpRun.step build s op = .ok (s', r) ∧ True ∧ s'.Sound build := by
    intro s _ op hs hop
    obtain ⟨s', r, hone, hkept⟩ := hs.step hop.1
    refine ⟨s', r, (), hone, trivial, ?_⟩
    by_cases hfails : Fails op r
    · obtain ⟨p, sz, rfl, hsz, rfl⟩ := hfails
      obtain ⟨⟨n, hp⟩, hfits⟩ := hop.1
      rw [hs.failed hp hsz hfits (hop.2 p sz s' rfl hsz hone) hone]
      exact hs
    · exact (hkept hfails).1
  obtain ⟨s', hist, -, hexec, -, hsound⟩ := @Machine.exec_follows _ _ _ _ (BumpRun.step build) Unit
    (fun _ _ _ _ => True) (fun s _ => s.Sound build) _ hstep s () ops h hrun
  exact ⟨s', hist, hexec, hsound⟩

/-- **A failed realloc leaves the block alive** exactly where the block is not the tail: in every state that a run
reaches in which no `realloc` of the tail has failed. -/
theorem failed_realloc_iff {address size : UInt64} {bytes : Nat → UInt8}
    (hcreate : BumpRegion.create build address size bytes = some m)
    (hroom : BumpContext.base build ≤ size.toNat) {ops : List BumpOp}
    (hrun : CarefulRun build ⟨m, []⟩ ops) :
    ∃ s hist, Machine.exec (BumpRun.step build) ⟨m, []⟩ ops = .ok (s, hist)
      ∧ ∀ (p n : Nat) (sz : UInt64) (m' : BumpRegion), (p, n) ∈ s.live → sz ≠ 0 →
        s.mem.realloc build (some p) sz.toNat = .ok (m', none) →
        (StaysAlive build s m' p ↔ ¬ IsTail s.mem p) := by
  obtain ⟨s, hist, hexec, hsound⟩ := (sound_create hcreate hroom).exec_careful hrun
  refine ⟨s, hist, hexec, ?_⟩
  intro p n sz m' hp hsz hnull
  have hne : sz.toNat ≠ 0 := fun hzero => hsz (UInt64.toNat_inj.mp hzero)
  exact hsound.staysAlive_iff hp hne (fits_of_null hsound hp hne hnull) hnull

/-- Behind a `realloc` of the first of two blocks, which found no room. -/
theorem failed_realloc_iff_first :
    ∃ m, BumpRegion.create .release 0x7f0000000000 4096 (fun _ => 0) = some m
      ∧ ∃ s hist, Machine.exec (BumpRun.step .release) ⟨m, []⟩ [.alloc 24, .alloc 8, .realloc (some 112) 5000]
            = .ok (s, hist)
        ∧ (.realloc (some 112) 5000, none) ∈ hist
        ∧ ∀ (p n : Nat) (sz : UInt64) (m' : BumpRegion), (p, n) ∈ s.live → sz ≠ 0 →
          s.mem.realloc .release (some p) sz.toNat = .ok (m', none) →
          (StaysAlive .release s m' p ↔ ¬ IsTail s.mem p) := by
  obtain ⟨m, s₁, m₂, hcreate, hstep₁, hstep₂, hsound, hheader, hcurrent, hsize⟩ := two_blocks
  have hmore : FitsWord 5000 := show alignMax 5000 + sizeofBumpContextHeader < 2 ^ 64 by decide
  have htail : ¬ IsTail m₂ 112 := by
    rw [IsTail, hheader, hcurrent]
    decide
  have hfirst : (112, 24) ∈ [(160, 8), (112, 24)] := List.mem_cons_of_mem _ List.mem_cons_self
  have hmove := realloc_move hsound hfirst (by decide) hmore
    (by rw [hheader]; decide) htail
  rw [if_pos (by rw [hsize, hcurrent]; decide)] at hmove
  have hstep₃ := @step_realloc_none .release ⟨m₂, [(160, 8), (112, 24)]⟩ _ 112 5000 hmove
  have hexec : Machine.exec (BumpRun.step .release) ⟨m, []⟩ [.alloc 24, .alloc 8, .realloc (some 112) 5000]
      = .ok (_, [(.alloc 24, some 112), (.alloc 8, some 160), (.realloc (some 112) 5000, none)]) :=
    Machine.exec_cons_eq_ok.mpr ⟨_, _, _, hstep₁, Machine.exec_cons_eq_ok.mpr ⟨_, _, _, hstep₂,
      Machine.exec_cons_eq_ok.mpr ⟨_, _, [], hstep₃, rfl, rfl⟩, rfl⟩, rfl⟩
  have hrun : CarefulRun .release ⟨m, []⟩ [.alloc 24, .alloc 8, .realloc (some 112) 5000] := by
    refine (Machine.along_cons hstep₁).mpr ⟨⟨?_, nofun⟩, ?_⟩
    · show alignMax 24 + sizeofBumpContextHeader < 2 ^ 64
      decide
    refine (Machine.along_cons hstep₂).mpr ⟨⟨?_, nofun⟩, ?_⟩
    · show alignMax 8 + sizeofBumpContextHeader < 2 ^ 64
      decide
    refine Machine.along_singleton ⟨⟨⟨24, hfirst⟩, hmore⟩, fun p sz s' hop _ _ => ?_⟩
    cases hop
    exact htail
  obtain ⟨s, hist, hexec', hiff⟩ := failed_realloc_iff hcreate (by decide) hrun
  refine ⟨m, hcreate, s, hist, hexec', ?_, hiff⟩
  rw [hexec] at hexec'
  cases hexec'
  simp

/-- The only block of a page is its tail: when it cannot grow, the mark goes back to its start. -/
theorem tail_lost :
    ∃ m, BumpRegion.create .release 0x7f0000000000 4096 (fun _ => 0) = some m
      ∧ ∃ s, BumpRun.step .release ⟨m, []⟩ (.alloc 24) = .ok (s, some 112) ∧ (112, 24) ∈ s.live
        ∧ ∃ m', s.mem.realloc .release (some 112) 5000 = .ok (m', none) ∧ ¬ StaysAlive .release s m' 112 := by
  have hcreate : BumpRegion.create .release 0x7f0000000000 4096 (fun _ => 0) = some _ := rfl
  have hroom : BumpContext.base .release ≤ (4096 : UInt64).toNat := by decide
  have hsound := sound_create hcreate hroom
  refine ⟨_, hcreate, ?_⟩
  generalize hm : BumpRegion.mk 0x7f0000000000 4096 (BumpContext.base .release) (fun _ => 0) = m at hsound ⊢
  have hcurrent : m.current = 96 := by rw [← hm]; rfl
  have hsize : m.size.toNat = 4096 := by rw [← hm]; rfl
  have hfits : FitsWord 24 := show alignMax 24 + sizeofBumpContextHeader < 2 ^ 64 by decide
  have hmore : FitsWord 5000 := show alignMax 5000 + sizeofBumpContextHeader < 2 ^ 64 by decide
  have hstart : 96 + sizeofBumpContextHeader = 112 := rfl
  have halloc := @BumpRegion.alloc_eq .release m 24 (by omega) (by decide) hfits
  have hblock := hsound.push (by decide) hfits (by rw [hsize, hcurrent]; decide)
  have hheader := @BumpRegion.headerSize_push m (alignMax 24) (by decide)
  rw [if_neg (by rw [hsize, hcurrent]; decide), hcurrent, hstart] at halloc
  rw [hcurrent, hstart] at hblock hheader
  have hend : (m.push (alignMax 24)).current = 144 := by
    rw [BumpRegion.push, hcurrent]
    rfl
  have htail : 112 + (m.push (alignMax 24)).headerSize 112 = (m.push (alignMax 24)).current := by
    rw [hheader, hend]
    rfl
  have hrealloc := realloc_tail hblock List.mem_cons_self (by decide) hmore (by rw [hheader]; decide) htail
  have hsame : (m.push (alignMax 24)).size = m.size := rfl
  rw [hsame, hsize, if_pos (by decide)] at hrealloc
  have hstep := @step_alloc .release ⟨m, []⟩ _ 24 _ halloc
  refine ⟨_, hstep, List.mem_cons_self, _, hrealloc, ?_⟩
  intro halive
  have hmark := halive.mark
  rw [rewind_tail hblock htail, hend] at hmark
  have hback : 112 - sizeofBumpContextHeader = 144 := hmark
  exact absurd hback (by decide)

end BumpRun

end Scroller

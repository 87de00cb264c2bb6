import Mathlib.Data.List.Pairwise
import Scroller.BumpRegion
import Scroller.Lib.Machine

/-!
# Blocks of a bump context

The live blocks of a context lie apart from each other below its mark. The mark goes back only to the start of a
block that ends at it, and all other live blocks lie below that.
-/

namespace Scroller

open ByteMemory

/-! ### Sizes -/

/-- A size that does not wrap when it is aligned and its header is added. -/
def FitsWord (sz : Nat) : Prop := alignMax sz + sizeofBumpContextHeader < 2 ^ 64

theorem alignMaxWord_eq {sz : Nat} (h : FitsWord sz) : alignMaxWord sz = alignMax sz := by
  rw [FitsWord, alignMax, sizeofBumpContextHeader] at h
  rw [alignMaxWord, alignMax, Nat.mod_eq_of_lt (by omega)]

namespace BumpRegion

variable {build : Build} {m m' m'' : BumpRegion} {p q sz : Nat}

/-! ### Bytes of a block -/

/-- The bytes of a block and of its header are the same in two regions. -/
def SameBlock (m m' : BumpRegion) (p : Nat) : Prop :=
  ∀ i, p - sizeofBumpContextHeader ≤ i → i < p + m.headerSize p → m'.bytes i = m.bytes i

theorem load_congr {mem mem' : Nat → UInt8} {a k : Nat} (h : ∀ i, a ≤ i → i < a + k → mem' i = mem i) :
    LittleEndian.load mem' a k = LittleEndian.load mem a k := by
  apply congrArg LittleEndian.ofBytes
  apply slice_congr
  intro i hi
  exact h (a + i) (Nat.le_add_right a i) (Nat.add_lt_add_left hi a)

/-- The header of a block is the same in two regions. -/
structure SameHeader (m m' : BumpRegion) (p : Nat) : Prop where
  context : m'.headerContext p = m.headerContext p
  size : m'.headerSize p = m.headerSize p

theorem sameHeader_of_bytes (hp : sizeofBumpContextHeader ≤ p)
    (h : ∀ i, p - sizeofBumpContextHeader ≤ i → i < p → m'.bytes i = m.bytes i) : m.SameHeader m' p := by
  have hsz : sizeofBumpContextHeader = 16 := rfl
  refine { context := load_congr ?_, size := load_congr ?_ }
  · intro i hlow hhigh
    exact h i (by omega) (by omega)
  · intro i hlow hhigh
    exact h i (by omega) (by omega)

theorem SameBlock.header (h : m.SameBlock m' p) (hp : sizeofBumpContextHeader ≤ p) :
    m.SameHeader m' p :=
  sameHeader_of_bytes hp fun i hlow hhigh => h i hlow (Nat.lt_add_right _ hhigh)

theorem SameBlock.trans (h : m.SameBlock m' p) (hp : sizeofBumpContextHeader ≤ p)
    (h' : m'.SameBlock m'' p) : m.SameBlock m'' p := by
  intro i hlow hhigh
  rw [h' i hlow (by rwa [(h.header hp).size]), h i hlow hhigh]

theorem SameBlock.contents (h : m.SameBlock m' p) :
    slice m'.bytes p (m.headerSize p) = slice m.bytes p (m.headerSize p) := by
  apply slice_congr
  intro i hi
  exact h (p + i) (by omega) (by omega)

theorem sameBlock_write {cells : List UInt8}
    (hbytes : m'.bytes = write m.bytes q cells)
    (hapart : p + m.headerSize p ≤ q ∨ q + cells.length ≤ p - sizeofBumpContextHeader) :
    m.SameBlock m' p := by
  intro i hlow hhigh
  rw [hbytes]
  rcases hapart with hbelow | habove
  · exact write_of_lt (by omega)
  · exact write_of_le (by omega)

/-! ### Calls -/

/-- A new block at the mark. -/
def push (m : BumpRegion) (sz : Nat) : BumpRegion :=
  { m with
    bytes := write m.bytes m.current (headerBytes m.address.toNat sz)
    current := m.current + (sz + sizeofBumpContextHeader) }

theorem length_headerBytes (address size : Nat) :
    (headerBytes address size).length = sizeofBumpContextHeader := by
  rw [headerBytes, List.length_append, LittleEndian.length_toBytes, LittleEndian.length_toBytes]
  rfl

theorem headerContext_push :
    (m.push sz).headerContext (m.current + sizeofBumpContextHeader) = m.address.toNat := by
  have hcells : slice (m.push sz).bytes m.current 8 = LittleEndian.toBytes 8 m.address.toNat := by
    have hlength : 0 + 8 ≤ (headerBytes m.address.toNat sz).length := by
      rw [length_headerBytes]
      decide
    refine (@slice_write_inside UInt8 m.bytes m.current 8 _ 0 hlength).trans ?_
    rw [List.drop_zero, headerBytes, List.take_left' (LittleEndian.length_toBytes 8 _)]
  rw [headerContext, Nat.add_sub_cancel, LittleEndian.load, hcells]
  exact LittleEndian.ofBytes_toBytes_of_lt m.address.toNat_lt

theorem headerSize_push (h : sz < 2 ^ 64) :
    (m.push sz).headerSize (m.current + sizeofBumpContextHeader) = sz := by
  have hcells : slice (m.push sz).bytes (m.current + 8) 8 = LittleEndian.toBytes 8 sz := by
    have hlength : 8 + 8 ≤ (headerBytes m.address.toNat sz).length := by
      rw [length_headerBytes]
      decide
    refine (@slice_write_inside UInt8 m.bytes m.current 8 _ 8 hlength).trans ?_
    rw [headerBytes, List.drop_left' (LittleEndian.length_toBytes 8 _),
      List.take_of_length_le (by rw [LittleEndian.length_toBytes])]
  rw [headerSize, Nat.add_sub_cancel, LittleEndian.load, hcells]
  exact LittleEndian.ofBytes_toBytes_of_lt h

theorem sameBlock_push (h : p + m.headerSize p ≤ m.current) : m.SameBlock (m.push sz) p :=
  sameBlock_write rfl (Or.inl h)

theorem alloc_eq (hmark : m.current ≤ m.size.toNat) (hsz : sz ≠ 0) (hfits : FitsWord sz) :
    m.alloc build sz = .ok
      (if m.size.toNat < m.current + (alignMax sz + sizeofBumpContextHeader) then (m, none)
        else (m.push (alignMax sz), some (m.current + sizeofBumpContextHeader))) := by
  have hsize := m.size.toNat_lt
  rw [alloc, if_neg hsz, alignMaxWord_eq hfits]
  rw [FitsWord] at hfits
  have hassert : alignMax sz ≤ 2 ^ 64 - 1 - sizeofBumpContextHeader := by omega
  have htotal : (alignMax sz + sizeofBumpContextHeader) % 2 ^ 64 = alignMax sz + sizeofBumpContextHeader :=
    Nat.mod_eq_of_lt hfits
  dsimp only
  have hleft : (m.size.toNat + 2 ^ 64 - m.current) % 2 ^ 64 = m.size.toNat - m.current := by omega
  rw [Build.assert_of _ hassert, htotal, hleft]
  change (if _ then _ else _ : Except Fault (BumpRegion × Option Nat)) = _
  by_cases hroom : m.size.toNat < m.current + (alignMax sz + sizeofBumpContextHeader)
  · rw [if_pos hroom, if_pos (by omega)]
    rfl
  · have hinside : m.inside m.current sizeofBumpContextHeader = .ok () := if_pos (by omega)
    rw [if_neg hroom, if_neg (by omega), hinside]
    change Except.ok _ = _
    rw [Nat.mod_eq_of_lt (show m.current + (alignMax sz + sizeofBumpContextHeader) < 2 ^ 64 by omega)]
    rfl

/-- Two blocks with their headers have no byte in common. -/
def Apart (m : BumpRegion) (a b : Nat × Nat) : Prop :=
  a.1 + m.headerSize a.1 ≤ b.1 - sizeofBumpContextHeader
    ∨ b.1 + m.headerSize b.1 ≤ a.1 - sizeofBumpContextHeader

instance (m : BumpRegion) : Std.Symm m.Apart := ⟨fun _ _ h => h.symm⟩

end BumpRegion

namespace BumpRun

/-- The live blocks lie apart from each other between the context header and the mark, and each is at least as
large as requested. -/
structure Sound (build : Build) (s : BumpRun) : Prop where
  base_le : BumpContext.base build ≤ s.mem.current
  mark_le : s.mem.current ≤ s.mem.size.toNat
  own : ∀ b ∈ s.live, s.mem.headerContext b.1 = s.mem.address.toNat
  above : ∀ b ∈ s.live, BumpContext.base build + sizeofBumpContextHeader ≤ b.1
  below : ∀ b ∈ s.live, b.1 + s.mem.headerSize b.1 ≤ s.mem.current
  large : ∀ b ∈ s.live, 0 < s.mem.headerSize b.1 ∧ b.2 ≤ s.mem.headerSize b.1
  apart : s.live.Pairwise s.mem.Apart

section

variable {build : Build} {s : BumpRun} {m m' : BumpRegion} {live live' : List (Nat × Nat)}
  {p q n sz : Nat} {a b : Nat × Nat}

theorem mem_lose : b ∈ lose live p ↔ b ∈ live ∧ b.1 ≠ p := by
  rw [lose, List.mem_filter, decide_eq_true_iff]

theorem Sound.header_le (h : s.Sound build) (hb : b ∈ s.live) : sizeofBumpContextHeader ≤ b.1 :=
  Nat.le_trans (Nat.le_add_left _ _) (h.above b hb)

theorem Sound.apart_of_ne (h : s.Sound build) (ha : a ∈ s.live) (hb : b ∈ s.live) (hne : a.1 ≠ b.1) :
    s.mem.Apart a b :=
  h.apart.forall ha hb (fun heq => hne (congrArg Prod.fst heq))

/-- A change that leaves the headers of the live blocks, with the mark behind all of them. -/
theorem Sound.change (h : Sound build ⟨m, live⟩) (hlive : live'.Sublist live)
    (haddress : m'.address = m.address) (hbase : BumpContext.base build ≤ m'.current)
    (hmark : m'.current ≤ m'.size.toNat) (hsame : ∀ b ∈ live', m.SameHeader m' b.1)
    (hbelow : ∀ b ∈ live', b.1 + m.headerSize b.1 ≤ m'.current) : Sound build ⟨m', live'⟩ := by
  have hheader : ∀ b ∈ live', m'.headerSize b.1 = m.headerSize b.1 := fun b hb => (hsame b hb).size
  refine {
    base_le := hbase
    mark_le := hmark
    own := ?_
    above := fun b hb => h.above b (hlive.subset hb)
    below := ?_
    large := ?_
    apart := ?_ }
  · intro b hb
    dsimp only
    rw [(hsame b hb).context, haddress]
    exact h.own b (hlive.subset hb)
  · intro b hb
    dsimp only
    rw [hheader b hb]
    exact hbelow b hb
  · intro b hb
    dsimp only
    rw [hheader b hb]
    exact h.large b (hlive.subset hb)
  · refine (h.apart.sublist hlive).imp_of_mem ?_
    intro a b ha hb hapart
    rw [BumpRegion.Apart] at hapart ⊢
    dsimp only at hapart ⊢
    rwa [hheader a ha, hheader b hb]

theorem Sound.sublist (h : Sound build ⟨m, live⟩) (hsub : live'.Sublist live) : Sound build ⟨m, live'⟩ := by
  refine h.change hsub rfl h.base_le h.mark_le (fun _ _ => ⟨rfl, rfl⟩) ?_
  intro b hb
  exact h.below b (hsub.subset hb)

theorem lose_sublist : (lose live p).Sublist live := List.filter_sublist

theorem Sound.below_tail (h : Sound build ⟨m, live⟩) (hp : (p, n) ∈ live)
    (htail : p + m.headerSize p = m.current) (hb : b ∈ BumpRun.lose live p) :
    b.1 + m.headerSize b.1 ≤ p - sizeofBumpContextHeader := by
  obtain ⟨hmem, hne⟩ := mem_lose.mp hb
  have hend := h.below b hmem
  have hpos := (h.large b hmem).1
  dsimp only at hend hpos
  rcases h.apart_of_ne hmem hp hne with hbelow | habove
  · exact hbelow
  · dsimp only at habove
    omega

theorem rewind_tail (h : Sound build ⟨m, live⟩) (htail : p + m.headerSize p = m.current) :
    m.rewind p = { m with current := p - sizeofBumpContextHeader } := by
  have hmark := h.mark_le
  have hsize := m.size.toNat_lt
  dsimp only at hmark
  exact if_pos (by rw [Nat.mod_eq_of_lt (by omega)]; exact htail)

theorem rewind_other (h : Sound build ⟨m, live⟩) (hp : (p, n) ∈ live)
    (htail : p + m.headerSize p ≠ m.current) : m.rewind p = m := by
  have hmark := h.mark_le
  have hsize := m.size.toNat_lt
  have hbelow := h.below _ hp
  dsimp only at hmark hbelow
  exact if_neg (by rw [Nat.mod_eq_of_lt (by omega)]; exact htail)

theorem Sound.rewind (h : Sound build ⟨m, live⟩) (hp : (p, n) ∈ live) :
    Sound build ⟨m.rewind p, BumpRun.lose live p⟩ := by
  by_cases htail : p + m.headerSize p = m.current
  · have habove := h.above _ hp
    have hbelow := h.below _ hp
    have hmark := h.mark_le
    dsimp only at habove hbelow hmark
    rw [rewind_tail h htail]
    refine h.change lose_sublist rfl ?_ ?_ (fun _ _ => ⟨rfl, rfl⟩) ?_
    · dsimp only
      omega
    · dsimp only
      omega
    · intro b hb
      exact h.below_tail hp htail hb
  · rw [rewind_other h hp htail]
    exact h.sublist lose_sublist

theorem Sound.push (h : Sound build ⟨m, live⟩) (hsz : sz ≠ 0) (hfits : FitsWord sz)
    (hroom : m.current + (alignMax sz + sizeofBumpContextHeader) ≤ m.size.toNat) :
    Sound build ⟨m.push (alignMax sz), (m.current + sizeofBumpContextHeader, sz) :: live⟩ := by
  rw [FitsWord] at hfits
  have hle := le_alignMax sz
  have hsame : ∀ b ∈ live, m.SameHeader (m.push (alignMax sz)) b.1 :=
    fun b hb => (BumpRegion.sameBlock_push (h.below b hb)).header (h.header_le hb)
  have hcurrent : (m.push (alignMax sz)).current = m.current + (alignMax sz + sizeofBumpContextHeader) :=
    rfl
  have hheader := @BumpRegion.headerSize_push m (alignMax sz) (by omega)
  have hold : Sound build ⟨m.push (alignMax sz), live⟩ := by
    have hbase := h.base_le
    dsimp only at hbase
    refine h.change (List.Sublist.refl live) rfl ?_ hroom hsame ?_
    · rw [hcurrent]
      omega
    · intro b hb
      have hbelow := h.below b hb
      dsimp only at hbelow
      rw [hcurrent]
      omega
  refine {
    base_le := hold.base_le
    mark_le := hold.mark_le
    own := ?_
    above := ?_
    below := ?_
    large := ?_
    apart := ?_ }
  · intro b hb
    rcases List.mem_cons.mp hb with rfl | hb
    · exact BumpRegion.headerContext_push
    · exact hold.own b hb
  · intro b hb
    rcases List.mem_cons.mp hb with rfl | hb
    · exact Nat.add_le_add_right h.base_le _
    · exact hold.above b hb
  · intro b hb
    rcases List.mem_cons.mp hb with rfl | hb
    · dsimp only
      rw [hheader, hcurrent]
      omega
    · exact hold.below b hb
  · intro b hb
    rcases List.mem_cons.mp hb with rfl | hb
    · dsimp only
      rw [hheader]
      omega
    · exact hold.large b hb
  · refine List.pairwise_cons.mpr ⟨?_, hold.apart⟩
    intro b hb
    refine Or.inr ?_
    rw [(hsame b hb).size, Nat.add_sub_cancel]
    exact h.below b hb

theorem Sound.sameBlock_fill {cells : List UInt8} {i : Nat} (h : Sound build ⟨m, live⟩)
    (hq : (q, n) ∈ live) (hi : i + cells.length ≤ m.headerSize q) (hb : b ∈ live) (hne : b.1 ≠ q) :
    m.SameBlock { m with bytes := write m.bytes (q + i) cells } b.1 := by
  apply BumpRegion.sameBlock_write rfl
  have hapart := h.apart_of_ne hb hq hne
  rw [BumpRegion.Apart] at hapart
  dsimp only at hapart
  omega

theorem Sound.fill {cells : List UInt8} {i : Nat} (h : Sound build ⟨m, live⟩) (hq : (q, n) ∈ live)
    (hi : i + cells.length ≤ m.headerSize q) :
    Sound build ⟨{ m with bytes := write m.bytes (q + i) cells }, live⟩ := by
  refine h.change (List.Sublist.refl live) rfl h.base_le h.mark_le ?_ h.below
  intro b hb
  by_cases hbq : b.1 = q
  · apply BumpRegion.sameHeader_of_bytes (h.header_le hb)
    intro j _ hj
    exact write_of_lt (by omega)
  · exact (h.sameBlock_fill hq hi hb hbq).header (h.header_le hb)

/-! ### Calls on live blocks -/

theorem Sound.asserts (h : Sound build ⟨m, live⟩) (hp : (p, n) ∈ live) :
    m.ownContext p = .ok () ∧ (0 < m.headerSize p
      ∧ (m.headerSize p + sizeofBumpContextHeader) % 2 ^ 64 ≤ m.size.toNat) ∧ p < m.current := by
  have habove := h.above _ hp
  have hbelow := h.below _ hp
  have hmark := h.mark_le
  have hpos := (h.large _ hp).1
  have hsize := m.size.toNat_lt
  dsimp only at habove hbelow hmark hpos
  refine ⟨if_pos (h.own _ hp), ⟨hpos, ?_⟩, by omega⟩
  rw [Nat.mod_eq_of_lt (by omega)]
  omega

theorem free_eq (h : Sound build ⟨m, live⟩) (hp : (p, n) ∈ live) :
    m.free build (some p) = .ok (m.rewind p) := by
  obtain ⟨hown, hheader, hcurrent⟩ := h.asserts hp
  unfold BumpRegion.free
  dsimp only
  rw [hown, Build.assert_of _ hheader, Build.assert_of _ hcurrent]
  rfl

theorem realloc_zero (h : Sound build ⟨m, live⟩) (hp : (p, n) ∈ live) :
    m.realloc build (some p) 0 = .ok (m.rewind p, none) := by
  obtain ⟨hown, hheader, -⟩ := h.asserts hp
  unfold BumpRegion.realloc
  dsimp only
  rw [hown, Build.assert_of _ hheader, free_eq h hp]
  rfl

/-- What `bump_context_realloc` does behind its checks. -/
theorem realloc_eq (h : Sound build ⟨m, live⟩) (hp : (p, n) ∈ live) (hsz : sz ≠ 0) (hfits : FitsWord sz) :
    m.realloc build (some p) sz =
      if m.headerSize p < alignMax sz then do
        let (m, np) ← (m.rewind p).alloc build (alignMax sz)
        match np with
        | none => return (m, none)
        | some np =>
            if np = p then return (m, some np)
            else do
              let m ← m.memcpy np p (m.headerSize p)
              return (m, some np)
      else .ok (m, some p) := by
  obtain ⟨hown, hheader, hcurrent⟩ := h.asserts hp
  have hassert : alignMax sz ≤ 2 ^ 64 - 1 - sizeofBumpContextHeader := by
    rw [FitsWord] at hfits
    omega
  unfold BumpRegion.realloc
  dsimp only
  rw [hown, Build.assert_of _ hheader, Build.assert_of _ hcurrent, alignMaxWord_eq hfits,
    Build.assert_of _ hassert]
  change (if sz = 0 then _ else _ : Except Fault (BumpRegion × Option Nat)) = _
  rw [if_neg hsz]
  rfl

theorem fitsWord_alignMax (h : FitsWord sz) : FitsWord (alignMax sz) := by
  rwa [FitsWord, alignMax_alignMax]

theorem alignMax_ne_zero (h : sz ≠ 0) : alignMax sz ≠ 0 := by
  have hle := le_alignMax sz
  omega

theorem realloc_same (h : Sound build ⟨m, live⟩) (hp : (p, n) ∈ live) (hsz : sz ≠ 0)
    (hfits : FitsWord sz) (hle : alignMax sz ≤ m.headerSize p) :
    m.realloc build (some p) sz = .ok (m, some p) := by
  rw [realloc_eq h hp hsz hfits, if_neg (Nat.not_lt.mpr hle)]

theorem realloc_tail (h : Sound build ⟨m, live⟩) (hp : (p, n) ∈ live) (hsz : sz ≠ 0)
    (hfits : FitsWord sz) (hlt : m.headerSize p < alignMax sz) (htail : p + m.headerSize p = m.current) :
    m.realloc build (some p) sz = .ok
      (if m.size.toNat < p - sizeofBumpContextHeader + (alignMax sz + sizeofBumpContextHeader) then
          (m.rewind p, none)
        else ((m.rewind p).push (alignMax sz), some p)) := by
  have hrewind := rewind_tail h htail
  have hsound := h.rewind hp
  have halloc := @BumpRegion.alloc_eq build (m.rewind p) (alignMax sz) hsound.mark_le
    (alignMax_ne_zero hsz) (fitsWord_alignMax hfits)
  have hcurrent : (m.rewind p).current = p - sizeofBumpContextHeader := by rw [hrewind]
  have hsize : (m.rewind p).size = m.size := by rw [hrewind]
  have habove := h.above _ hp
  dsimp only at habove
  rw [alignMax_alignMax, hcurrent, hsize, Nat.sub_add_cancel (by omega)] at halloc
  rw [realloc_eq h hp hsz hfits, if_pos hlt, halloc]
  split
  · rfl
  · change (if p = p then _ else _ : Except Fault (BumpRegion × Option Nat)) = _
    rw [if_pos rfl]
    rfl

theorem realloc_move (h : Sound build ⟨m, live⟩) (hp : (p, n) ∈ live) (hsz : sz ≠ 0)
    (hfits : FitsWord sz) (hlt : m.headerSize p < alignMax sz) (htail : p + m.headerSize p ≠ m.current) :
    m.realloc build (some p) sz = .ok
      (if m.size.toNat < m.current + (alignMax sz + sizeofBumpContextHeader) then (m, none)
        else ({ m.push (alignMax sz) with
          bytes := write (m.push (alignMax sz)).bytes (m.current + sizeofBumpContextHeader + 0)
            (slice m.bytes p (m.headerSize p)) }, some (m.current + sizeofBumpContextHeader))) := by
  have halloc := @BumpRegion.alloc_eq build m (alignMax sz) h.mark_le
    (alignMax_ne_zero hsz) (fitsWord_alignMax hfits)
  rw [alignMax_alignMax] at halloc
  rw [realloc_eq h hp hsz hfits, if_pos hlt, rewind_other h hp htail, halloc]
  by_cases hroom : m.size.toNat < m.current + (alignMax sz + sizeofBumpContextHeader)
  · rw [if_pos hroom, if_pos hroom]
    rfl
  · have hbelow := h.below _ hp
    have hpos := (h.large _ hp).1
    dsimp only at hbelow hpos
    have hsame := @BumpRegion.sameBlock_push m p (alignMax sz) hbelow
    have hheader := (hsame.header (h.header_le hp)).size
    have hsize : (m.push (alignMax sz)).size = m.size := rfl
    have hdst : (m.push (alignMax sz)).inside (m.current + sizeofBumpContextHeader) (m.headerSize p)
        = .ok () := if_pos (by rw [hsize]; omega)
    have hsrc : (m.push (alignMax sz)).inside p (m.headerSize p) = .ok () :=
      if_pos (by rw [hsize]; omega)
    rw [if_neg hroom, if_neg hroom]
    change (if m.current + sizeofBumpContextHeader = p then _ else _ :
      Except Fault (BumpRegion × Option Nat)) = _
    rw [if_neg (by omega), BumpRegion.memcpy, hheader, hdst, hsrc, ByteMemory.move, hsame.contents]
    rfl

/-! ### Steps and runs -/

/-- A call on live blocks with sizes that do not wrap, or a write into a live block. -/
def Allowed (s : BumpRun) : BumpOp → Prop
  | .alloc sz | .realloc none sz => FitsWord sz
  | .realloc (some p) sz => (∃ n, (p, n) ∈ s.live) ∧ FitsWord sz
  | .free none => True
  | .free (some p) => ∃ n, (p, n) ∈ s.live
  | .store p i _ => ∃ n, (p, n) ∈ s.live ∧ i < n

/-- A `realloc` fails. -/
def Fails (op : BumpOp) (r : Option Nat) : Prop :=
  ∃ p sz, op = .realloc (some p) sz ∧ sz ≠ 0 ∧ r = none

/-- The block that a call is about. -/
def block : BumpOp → Option Nat
  | .alloc _ => none
  | .realloc p _ | .free p => p
  | .store p _ _ => some p

/-- A step leaves the other blocks alone, and `realloc` takes the contents along. -/
structure Kept (s : BumpRun) (op : BumpOp) (s' : BumpRun) (r : Option Nat) : Prop where
  others : ∀ b ∈ s.live, block op ≠ some b.1 → b ∈ s'.live ∧ s.mem.SameBlock s'.mem b.1
  contents : ∀ p sz q, op = .realloc (some p) sz → r = some q →
    slice s'.mem.bytes q (s.mem.headerSize p) = slice s.mem.bytes p (s.mem.headerSize p)

theorem Sound.alloc (h : Sound build ⟨m, live⟩) (hfits : FitsWord sz) :
    ∃ m' r, m.alloc build sz = .ok (m', r) ∧ Sound build ⟨m', gain live r sz⟩
      ∧ ∀ b ∈ live, b ∈ gain live r sz ∧ m.SameBlock m' b.1 := by
  by_cases hsz : sz = 0
  · refine ⟨m, none, ?_, h, fun b hb => ⟨hb, fun _ _ _ => rfl⟩⟩
    rw [BumpRegion.alloc, if_pos hsz]
    rfl
  · rw [BumpRegion.alloc_eq h.mark_le hsz hfits]
    by_cases hroom : m.size.toNat < m.current + (alignMax sz + sizeofBumpContextHeader)
    · rw [if_pos hroom]
      exact ⟨m, none, rfl, h, fun b hb => ⟨hb, fun _ _ _ => rfl⟩⟩
    · rw [if_neg hroom]
      refine ⟨_, _, rfl, h.push hsz hfits (Nat.not_lt.mp hroom), ?_⟩
      intro b hb
      exact ⟨List.mem_cons_of_mem _ hb, BumpRegion.sameBlock_push (h.below b hb)⟩

theorem sameBlock_rewind (h : Sound build ⟨m, live⟩) (hp : (p, n) ∈ live) : m.SameBlock (m.rewind p) q := by
  intro i _ _
  by_cases htail : p + m.headerSize p = m.current
  · rw [rewind_tail h htail]
  · rw [rewind_other h hp htail]

theorem Sound.resize (h : Sound build ⟨m, live⟩) (hp : (p, n) ∈ live) (hsz : sz ≤ m.headerSize p) :
    Sound build ⟨m, (p, sz) :: BumpRun.lose live p⟩ := by
  have hold : Sound build ⟨m, BumpRun.lose live p⟩ := h.sublist lose_sublist
  refine {
    base_le := h.base_le
    mark_le := h.mark_le
    own := ?_
    above := ?_
    below := ?_
    large := ?_
    apart := ?_ }
  · intro b hb
    rcases List.mem_cons.mp hb with rfl | hb
    · exact h.own (p, n) hp
    · exact hold.own b hb
  · intro b hb
    rcases List.mem_cons.mp hb with rfl | hb
    · exact h.above (p, n) hp
    · exact hold.above b hb
  · intro b hb
    rcases List.mem_cons.mp hb with rfl | hb
    · exact h.below (p, n) hp
    · exact hold.below b hb
  · intro b hb
    rcases List.mem_cons.mp hb with rfl | hb
    · exact ⟨(h.large _ hp).1, hsz⟩
    · exact hold.large b hb
  · refine List.pairwise_cons.mpr ⟨?_, hold.apart⟩
    intro b hb
    obtain ⟨hmem, hne⟩ := mem_lose.mp hb
    have hapart := h.apart_of_ne hp hmem (Ne.symm hne)
    exact hapart

theorem Sound.grow_tail (h : Sound build ⟨m, live⟩) (hp : (p, n) ∈ live) (hsz : sz ≠ 0)
    (hfits : FitsWord sz) (htail : p + m.headerSize p = m.current)
    (hroom : p - sizeofBumpContextHeader + (alignMax sz + sizeofBumpContextHeader) ≤ m.size.toNat) :
    Sound build ⟨(m.rewind p).push (alignMax sz), (p, sz) :: BumpRun.lose live p⟩
      ∧ (∀ b ∈ live, b.1 ≠ p → m.SameBlock ((m.rewind p).push (alignMax sz)) b.1)
      ∧ slice ((m.rewind p).push (alignMax sz)).bytes p (m.headerSize p)
        = slice m.bytes p (m.headerSize p) := by
  have hheader := h.header_le hp
  have hsound := h.rewind hp
  rw [rewind_tail h htail] at hsound ⊢
  have hpush := hsound.push hsz hfits hroom
  dsimp only at hheader hpush
  rw [Nat.sub_add_cancel hheader] at hpush
  refine ⟨hpush, ?_, ?_⟩
  · intro b hb hne
    exact BumpRegion.sameBlock_write rfl
      (Or.inl (h.below_tail hp htail (mem_lose.mpr ⟨hb, hne⟩)))
  · apply slice_write_of_disjoint
    rw [BumpRegion.length_headerBytes]
    dsimp only
    omega

/-- A block with more room elsewhere takes over the contents. -/
theorem Sound.move (h : Sound build ⟨m, live⟩) (hsz : sz ≠ 0)
    (hfits : FitsWord sz) (hlt : m.headerSize p < alignMax sz)
    (hroom : m.current + (alignMax sz + sizeofBumpContextHeader) ≤ m.size.toNat) :
    ∀ m', m' = { m.push (alignMax sz) with
        bytes := write (m.push (alignMax sz)).bytes (m.current + sizeofBumpContextHeader + 0)
          (slice m.bytes p (m.headerSize p)) } →
      Sound build ⟨m', (m.current + sizeofBumpContextHeader, sz) :: BumpRun.lose live p⟩
        ∧ (∀ b ∈ live, b.1 ≠ p → m.SameBlock m' b.1)
        ∧ slice m'.bytes (m.current + sizeofBumpContextHeader) (m.headerSize p)
          = slice m.bytes p (m.headerSize p) := by
  rintro m' rfl
  have hpush := h.push hsz hfits hroom
  rw [FitsWord] at hfits
  have hheader := @BumpRegion.headerSize_push m (alignMax sz) (by omega)
  have hin : 0 + (slice m.bytes p (m.headerSize p)).length
      ≤ (m.push (alignMax sz)).headerSize (m.current + sizeofBumpContextHeader) := by
    rw [length_slice, hheader]
    omega
  refine ⟨(hpush.fill List.mem_cons_self hin).sublist (List.Sublist.cons_cons _ lose_sublist), ?_, ?_⟩
  · intro b hb _
    have hbelow := h.below b hb
    have hpos := (h.large b hb).1
    dsimp only at hbelow hpos
    have hsame := @BumpRegion.sameBlock_push m b.1 (alignMax sz) hbelow
    apply hsame.trans (h.header_le hb)
    exact hpush.sameBlock_fill List.mem_cons_self hin (List.mem_cons_of_mem _ hb) (by omega)
  · have hself := slice_write_self (m.push (alignMax sz)).bytes (m.current + sizeofBumpContextHeader + 0)
      (slice m.bytes p (m.headerSize p))
    rw [length_slice] at hself
    exact hself

/-- A `realloc` that returns a block has moved the contents there. -/
theorem Sound.realloc (h : Sound build ⟨m, live⟩) (hp : (p, n) ∈ live) (hsz : sz ≠ 0)
    (hfits : FitsWord sz) :
    ∃ m' r, m.realloc build (some p) sz = .ok (m', r) ∧ ∀ q, r = some q →
      Sound build ⟨m', (q, sz) :: BumpRun.lose live p⟩
        ∧ (∀ b ∈ live, b.1 ≠ p → m.SameBlock m' b.1)
        ∧ slice m'.bytes q (m.headerSize p) = slice m.bytes p (m.headerSize p) := by
  by_cases hlt : m.headerSize p < alignMax sz
  · by_cases htail : p + m.headerSize p = m.current
    · rw [realloc_tail h hp hsz hfits hlt htail]
      by_cases hroom : m.size.toNat < p - sizeofBumpContextHeader + (alignMax sz + sizeofBumpContextHeader)
      · rw [if_pos hroom]
        exact ⟨_, none, rfl, nofun⟩
      · rw [if_neg hroom]
        refine ⟨_, some p, rfl, ?_⟩
        intro q hq
        cases hq
        exact h.grow_tail hp hsz hfits htail (Nat.not_lt.mp hroom)
    · rw [realloc_move h hp hsz hfits hlt htail]
      by_cases hroom : m.size.toNat < m.current + (alignMax sz + sizeofBumpContextHeader)
      · rw [if_pos hroom]
        exact ⟨_, none, rfl, nofun⟩
      · rw [if_neg hroom]
        refine ⟨_, _, rfl, ?_⟩
        intro q hq
        cases hq
        exact h.move hsz hfits hlt (Nat.not_lt.mp hroom) _ rfl
  · have hle := Nat.not_lt.mp hlt
    refine ⟨m, some p, realloc_same h hp hsz hfits hle, ?_⟩
    intro q hq
    cases hq
    exact ⟨h.resize hp (Nat.le_trans (le_alignMax sz) hle), fun _ _ _ _ _ _ => rfl, rfl⟩

section Steps

variable {r : Option Nat}

theorem step_alloc (h : s.mem.alloc build sz = .ok (m', r)) :
    step build s (.alloc sz) = .ok (⟨m', gain s.live r sz⟩, r) := by
  unfold step
  dsimp only
  rw [h]
  rfl

theorem step_realloc_null (h : s.mem.alloc build sz = .ok (m', r)) :
    step build s (.realloc none sz) = .ok (⟨m', gain s.live r sz⟩, r) := by
  have hrealloc : s.mem.realloc build none sz = s.mem.alloc build sz := rfl
  unfold step
  dsimp only
  rw [hrealloc, h]
  rfl

theorem step_realloc_some (h : s.mem.realloc build (some p) sz = .ok (m', some q)) :
    step build s (.realloc (some p) sz) = .ok (⟨m', (q, sz) :: lose s.live p⟩, some q) := by
  unfold step
  dsimp only
  rw [h]
  rfl

theorem step_realloc_none (h : s.mem.realloc build (some p) sz = .ok (m', none)) :
    step build s (.realloc (some p) sz)
      = .ok (⟨m', if sz = 0 then lose s.live p else s.live⟩, none) := by
  unfold step
  dsimp only
  rw [h]
  rfl

theorem step_free (h : s.mem.free build (some p) = .ok m') :
    step build s (.free (some p)) = .ok (⟨m', lose s.live p⟩, none) := by
  unfold step
  dsimp only
  rw [h]
  rfl

end Steps

theorem kept_free {op : BumpOp} (h : Sound build ⟨m, live⟩) (hp : (p, n) ∈ live) (hop : block op = some p) :
    Kept ⟨m, live⟩ op ⟨m.rewind p, lose live p⟩ none := by
  refine { others := ?_, contents := ?_ }
  · intro b hb hne
    have hbp : b.1 ≠ p := fun heq => hne (hop.trans (congrArg some heq.symm))
    dsimp only
    exact ⟨mem_lose.mpr ⟨hb, hbp⟩, sameBlock_rewind h hp⟩
  · intro p' sz' q _ hr
    cases hr

/-- Every allowed call returns, and unless a `realloc` fails it keeps the blocks apart. -/
theorem Sound.step {op : BumpOp} (h : s.Sound build) (hallowed : s.Allowed op) :
    ∃ s' r, BumpRun.step build s op = .ok (s', r)
      ∧ (¬ Fails op r → s'.Sound build ∧ Kept s op s' r) := by
  obtain ⟨m, live⟩ := s
  cases op with
  | alloc sz =>
      obtain ⟨m', r, halloc, hsound, hkept⟩ := h.alloc hallowed
      refine ⟨_, r, step_alloc halloc, fun _ => ⟨hsound, ?_⟩⟩
      exact { others := fun b hb _ => hkept b hb, contents := nofun }
  | realloc p sz =>
      cases p with
      | none =>
          obtain ⟨m', r, halloc, hsound, hkept⟩ := h.alloc hallowed
          refine ⟨_, r, step_realloc_null halloc, fun _ => ⟨hsound, ?_⟩⟩
          exact { others := fun b hb _ => hkept b hb, contents := nofun }
      | some p =>
          obtain ⟨⟨n, hp⟩, hfits⟩ := hallowed
          by_cases hsz : sz = 0
          · subst hsz
            exact ⟨_, none, step_realloc_none (realloc_zero h hp),
              fun _ => ⟨h.rewind hp, kept_free h hp rfl⟩⟩
          · obtain ⟨m', r, hrealloc, hgrown⟩ := h.realloc hp hsz hfits
            cases r with
            | none =>
                exact ⟨_, none, step_realloc_none hrealloc,
                  fun hnot => absurd ⟨p, sz, rfl, hsz, rfl⟩ hnot⟩
            | some q =>
                obtain ⟨hsound, hothers, hcontents⟩ := hgrown q rfl
                refine ⟨_, some q, step_realloc_some hrealloc, fun _ => ⟨hsound, ?_⟩⟩
                refine { others := ?_, contents := ?_ }
                · intro b hb hne
                  have hbp : b.1 ≠ p := fun heq => hne (congrArg some heq.symm)
                  exact ⟨List.mem_cons_of_mem _ (mem_lose.mpr ⟨hb, hbp⟩), hothers b hb hbp⟩
                · intro p' sz' q' hop hr
                  cases hop
                  cases hr
                  exact hcontents
  | free p =>
      cases p with
      | none =>
          refine ⟨⟨m, live⟩, none, rfl, fun _ => ⟨h, ?_⟩⟩
          exact { others := fun b hb _ => ⟨hb, fun _ _ _ => rfl⟩, contents := nofun }
      | some p =>
          obtain ⟨n, hp⟩ := hallowed
          exact ⟨_, none, step_free (free_eq h hp), fun _ => ⟨h.rewind hp, kept_free h hp rfl⟩⟩
  | store p i b =>
      obtain ⟨n, hp, hi⟩ := hallowed
      have hlarge := (h.large _ hp).2
      dsimp only at hlarge
      have hin : i + [b].length ≤ m.headerSize p := by
        rw [List.length_singleton]
        omega
      refine ⟨_, none, rfl, fun _ => ⟨h.fill hp hin, ?_⟩⟩
      refine { others := ?_, contents := nofun }
      intro b' hb' hne
      exact ⟨hb', h.sameBlock_fill hp hin hb' (fun heq => hne (congrArg some heq.symm))⟩

/-- A run of allowed calls in which no `realloc` fails. -/
def AllowedRun (build : Build) (s : BumpRun) (ops : List BumpOp) : Prop :=
  Machine.Along (BumpRun.step build) (fun s op => s.Allowed op
    ∧ ∀ s' r, BumpRun.step build s op = .ok (s', r) → ¬ Fails op r) s ops

theorem Sound.exec {ops : List BumpOp} (h : s.Sound build) (hallowed : AllowedRun build s ops) :
    ∃ s' hist, Machine.exec (BumpRun.step build) s ops = .ok (s', hist) ∧ s'.Sound build := by
  have hstep : ∀ (s : BumpRun) (_ : Unit) (op : BumpOp), s.Sound build →
      (s.Allowed op ∧ ∀ s' r, BumpRun.step build s op = .ok (s', r) → ¬ Fails op r) →
      ∃ s' r, ∃ _ : Unit, BumpRun.step build s op = .ok (s', r) ∧ True ∧ s'.Sound build := by
    intro s _ op hs hop
    obtain ⟨s', r, hone, hkept⟩ := hs.step hop.1
    exact ⟨s', r, (), hone, trivial, (hkept (hop.2 s' r hone)).1⟩
  obtain ⟨s', hist, -, hexec, -, hsound⟩ := @Machine.exec_follows _ _ _ _ (BumpRun.step build) Unit
    (fun _ _ _ _ => True) (fun s _ => s.Sound build) _ hstep s () ops h hallowed
  exact ⟨s', hist, hexec, hsound⟩

theorem sound_create {address size : UInt64} {bytes : Nat → UInt8}
    (hcreate : BumpRegion.create build address size bytes = some m)
    (hroom : BumpContext.base build ≤ size.toNat) : Sound build ⟨m, []⟩ := by
  unfold BumpRegion.create at hcreate
  split at hcreate
  · cases hcreate
  · cases hcreate
    exact {
      base_le := Nat.le_refl _
      mark_le := hroom
      own := nofun
      above := nofun
      below := nofun
      large := nofun
      apart := List.Pairwise.nil }

/-- **Blocks never overlap**: in a context with room for its header every run of calls on live blocks returns,
keeps the live blocks apart below the mark, and every step of it keeps the contents of the others. -/
theorem run_apart {address size : UInt64} {bytes : Nat → UInt8}
    (hcreate : BumpRegion.create build address size bytes = some m)
    (hroom : BumpContext.base build ≤ size.toNat) {ops : List BumpOp}
    (hallowed : AllowedRun build ⟨m, []⟩ ops) :
    (∃ s hist, Machine.exec (BumpRun.step build) ⟨m, []⟩ ops = .ok (s, hist) ∧ s.Sound build)
      ∧ Machine.Along (BumpRun.step build) (fun s op => ∀ s' r, BumpRun.step build s op = .ok (s', r) →
        s'.Sound build ∧ Kept s op s' r) ⟨m, []⟩ ops := by
  have hstart : Sound build ⟨m, []⟩ := sound_create hcreate hroom
  refine ⟨hstart.exec hallowed, ?_⟩
  intro before op after s hist hsplit hexec s' r hstep
  have hbefore : AllowedRun build ⟨m, []⟩ before := by
    intro left op' right s₁ hist₁ hleft hexec₁
    exact hallowed left op' (right ++ op :: after) s₁ hist₁ (by rw [hsplit, hleft]; simp) hexec₁
  obtain ⟨s₂, hist₂, hexec₂, hsound⟩ := hstart.exec hbefore
  rw [hexec] at hexec₂
  cases hexec₂
  obtain ⟨hop, hsucceeds⟩ := hallowed before op after s hist hsplit hexec
  obtain ⟨s₃, r₃, hstep₃, hkept⟩ := hsound.step hop
  rw [hstep] at hstep₃
  cases hstep₃
  exact hkept (hsucceeds s' r hstep)

theorem Sound.step_push (h : Sound build ⟨m, live⟩) (hsz : sz ≠ 0) (hfits : FitsWord sz)
    (hroom : m.current + (alignMax sz + sizeofBumpContextHeader) ≤ m.size.toNat) :
    BumpRun.step build ⟨m, live⟩ (.alloc sz)
      = .ok (⟨m.push (alignMax sz), (m.current + sizeofBumpContextHeader, sz) :: live⟩,
          some (m.current + sizeofBumpContextHeader)) := by
  have halloc := @BumpRegion.alloc_eq build m sz h.mark_le hsz hfits
  rw [if_neg (by omega)] at halloc
  exact @step_alloc build ⟨m, live⟩ _ sz _ halloc

/-- Two blocks in a page. -/
theorem two_blocks :
    ∃ m s₁ m₂, BumpRegion.create .release 0x7f0000000000 4096 (fun _ => 0) = some m
      ∧ BumpRun.step .release ⟨m, []⟩ (.alloc 24) = .ok (s₁, some 112)
      ∧ BumpRun.step .release s₁ (.alloc 8) = .ok (⟨m₂, [(160, 8), (112, 24)]⟩, some 160)
      ∧ Sound .release ⟨m₂, [(160, 8), (112, 24)]⟩ ∧ m₂.headerSize 112 = 32 ∧ m₂.current = 176
      ∧ m₂.size.toNat = 4096 := by
  have hcreate : BumpRegion.create .release 0x7f0000000000 4096 (fun _ => 0) = some _ := rfl
  have hroom : BumpContext.base .release ≤ (4096 : UInt64).toNat := by decide
  have hsound := sound_create hcreate hroom
  generalize hm : BumpRegion.mk 0x7f0000000000 4096 (BumpContext.base .release) (fun _ => 0) = m at hsound
  have hcurrent : m.current = 96 := by rw [← hm]; rfl
  have hsize : m.size.toNat = 4096 := by rw [← hm]; rfl
  have hfits : FitsWord 24 := show alignMax 24 + sizeofBumpContextHeader < 2 ^ 64 by decide
  have hmore : FitsWord 8 := show alignMax 8 + sizeofBumpContextHeader < 2 ^ 64 by decide
  have hfirst : 96 + sizeofBumpContextHeader = 112 := rfl
  have hsecond : 144 + sizeofBumpContextHeader = 160 := rfl
  have hsound₁ := hsound.push (by decide) hfits (by rw [hsize, hcurrent]; decide)
  have hstep₁ := hsound.step_push (by decide) hfits (by rw [hsize, hcurrent]; decide)
  have hheader := @BumpRegion.headerSize_push m (alignMax 24) (by decide)
  rw [hcurrent, hfirst] at hsound₁ hstep₁ hheader
  have hcurrent₁ : (m.push (alignMax 24)).current = 144 := by
    rw [BumpRegion.push, hcurrent]
    rfl
  have hsize₁ : (m.push (alignMax 24)).size.toNat = 4096 := hsize
  have hsound₂ := hsound₁.push (by decide) hmore (by rw [hsize₁, hcurrent₁]; decide)
  have hstep₂ := hsound₁.step_push (by decide) hmore (by rw [hsize₁, hcurrent₁]; decide)
  have hbelow : 112 + (m.push (alignMax 24)).headerSize 112 ≤ (m.push (alignMax 24)).current :=
    hsound₁.below (112, 24) List.mem_cons_self
  have hheader₂ := ((@BumpRegion.sameBlock_push _ 112 (alignMax 8) hbelow).header
    (hsound₁.header_le (b := (112, 24)) List.mem_cons_self)).size
  rw [hcurrent₁, hsecond] at hsound₂ hstep₂
  refine ⟨m, _, _, hm ▸ hcreate, hstep₁, hstep₂, hsound₂, hheader₂.trans hheader, ?_, hsize₁⟩
  rw [BumpRegion.push, hcurrent₁]
  rfl

/-- The first of two blocks grows, which moves it behind the second one, and the second one is freed. -/
theorem run_apart_moved :
    ∃ m, BumpRegion.create .release 0x7f0000000000 4096 (fun _ => 0) = some m
      ∧ ∃ s hist, Machine.exec (BumpRun.step .release) ⟨m, []⟩
            [.alloc 24, .alloc 8, .realloc (some 112) 40, .free (some 160)] = .ok (s, hist)
        ∧ s.Sound .release := by
  obtain ⟨m, s₁, m₂, hcreate, hstep₁, hstep₂, hsound, hheader, hcurrent, hsize⟩ := two_blocks
  have hmore : FitsWord 40 := show alignMax 40 + sizeofBumpContextHeader < 2 ^ 64 by decide
  have hfirst : (112, 24) ∈ [(160, 8), (112, 24)] := List.mem_cons_of_mem _ List.mem_cons_self
  have hmove := realloc_move hsound hfirst (by decide) hmore
    (by rw [hheader]; decide) (by rw [hheader, hcurrent]; decide)
  rw [if_neg (by rw [hsize, hcurrent]; decide)] at hmove
  have hstep₃ := @step_realloc_some .release ⟨m₂, [(160, 8), (112, 24)]⟩ _ 112 _ 40 hmove
  have hnone {s : BumpRun} {op : BumpOp} (hop : ∀ p sz, op ≠ .realloc (some p) sz) (s' : BumpRun) (r : Option Nat)
      (_ : BumpRun.step .release s op = .ok (s', r)) : ¬ Fails op r := by
    rintro ⟨p, sz, heq, -⟩
    exact hop p sz heq
  refine ⟨m, hcreate, (run_apart hcreate (by decide) ?_).1⟩
  refine (Machine.along_cons hstep₁).mpr ⟨⟨?_, hnone nofun⟩, ?_⟩
  · show alignMax 24 + sizeofBumpContextHeader < 2 ^ 64
    decide
  refine (Machine.along_cons hstep₂).mpr ⟨⟨?_, hnone nofun⟩, ?_⟩
  · show alignMax 8 + sizeofBumpContextHeader < 2 ^ 64
    decide
  refine (Machine.along_cons hstep₃).mpr ⟨⟨⟨⟨24, hfirst⟩, hmore⟩, fun s' r hstep => ?_⟩,
    Machine.along_singleton ⟨⟨8, List.mem_cons_of_mem _ (mem_lose.mpr ⟨List.mem_cons_self, by decide⟩)⟩, hnone nofun⟩⟩
  rw [hstep₃] at hstep
  cases hstep
  rintro ⟨p, sz, -, -, hfailed⟩
  cases hfailed

end

end BumpRun

end Scroller

import Scroller.Lib.ByteBits
import Scroller.Proof.PagecacheRun
import Scroller.Tran

/-!
# The store of transaction flags

A flag is one bit of `g_pages`, and two ids never share one. Whether the bit lies in the flag area of the
transaction page is not checked by the code: it is the condition under which the flags form a store and
nothing else is written.
-/

namespace Scroller

namespace Pagecache

variable {W P : Type}

/-! ### Pages that are cached -/

section Cached

open Icache (Entry)

variable {s : Pagecache W P} {m : BucketMap Int64 (Entry (Option Nat))} {l fl sl sfl : List Nat}
  {key : Gid} {f : Nat}

theorem Inv.frame_lt (h : s.Inv m l fl sl sfl) (hframe : frameOf m key.key = some f) :
    f < s.stack.listsz := by
  obtain ⟨entry, hlookup, -⟩ := Option.bind_eq_some_iff.mp hframe
  have hmem : key.key ∈ l.map s.cache.list.values := by
    rw [h.cache.mem_order, hlookup]
    simp
  obtain ⟨idx, hidx, hlt⟩ := h.cached_frame hmem
  rw [hframe] at hidx
  rw [Option.some.inj hidx]
  exact hlt

theorem Inv.frame_eq (h : s.Inv m l fl sl sfl) (hframe : frameOf m key.key = some f) {e : Slot}
    (hget : s.cache.hash.getFn key.key = .ok (some e)) :
    (s.cache.hash.node e).data.value = some f := by
  rw [frameOf, (h.cache.hash.of_getFn hget).2.2.2, Option.bind_some] at hframe
  exact hframe

theorem Inv.putPage_hit (h : s.Inv m l fl sl sfl) (build : Build) (os : Os W P)
    (hframe : frameOf m key.key = some f) :
    ∃ list' l', s.putPage build os key = .ok ({ s with cache := { s.cache with list := list' } }, some f)
      ∧ Inv { s with cache := { s.cache with list := list' } } m l' fl sl sfl := by
  obtain ⟨entry, hlookup, -⟩ := Option.bind_eq_some_iff.mp hframe
  obtain ⟨list', l', e, htouch, hinv, hget, -⟩ := h.touchFn_hit build os hlookup
  refine ⟨list', l', ?_, hinv⟩
  have hlt := h.frame_lt hframe
  rw [putPage, htouch]
  simp only [bind, Except.bind, Ihash.load_eq (h.cache.hash.of_getFn hget).1, h.frame_eq hframe hget,
    frame, hlt, if_true]
  rfl

/-- The frame that a call of `pagecache_put_page` returned backs the page afterwards. -/
theorem Inv.of_putPage (h : s.Inv m l fl sl sfl) {build : Build} {os : Os W P}
    (hos : os.PageIoSucceeds) (hkey : key.key ≠ ihashUndef) {s' : Pagecache W P}
    (hput : s.putPage build os key = .ok (s', some f)) :
    ∃ m' l' fl' sl' sfl', s'.Inv m' l' fl' sl' sfl' ∧ frameOf m' key.key = some f := by
  rcases h.touchFn build hos hkey with ⟨s₁, e, m', l', fl', sl', sfl', gone, htouch, hinv, -, hget, -⟩
    | ⟨hcrash | hcrash, -⟩
  · have hload := Ihash.load_eq (hinv.cache.hash.of_getFn hget).1
    have hlookup := (hinv.cache.hash.of_getFn hget).2.2.2
    rw [putPage, htouch] at hput
    simp only [bind, Except.bind, hload] at hput
    cases hvalue : (s₁.cache.hash.node e).data.value with
    | none =>
        rw [hvalue] at hput
        cases hput
    | some idx =>
        simp only [hvalue, frame] at hput
        split at hput
        · cases hput
        · rename_i idx' hidx
          split at hidx
          · cases hidx
            cases hput
            exact ⟨m', l', fl', sl', sfl', hinv, by rw [frameOf, hlookup, Option.bind_some, hvalue]⟩
          · cases hidx
  · rw [putPage, hcrash] at hput
    cases hput
  · rw [putPage, hcrash] at hput
    cases hput

theorem Inv.flush_hit (h : s.Inv m l fl sl sfl) {build : Build} {os : Os W P}
    (hframe : frameOf m key.key = some f) (hserved : FileServed build os s.fdcache key.fileId) :
    ∃ fdcache' n, s.flush build os key = .ok ({ s with fdcache := fdcache' }, n) ∧ FdInv fdcache' := by
  obtain ⟨entry, hlookup, -⟩ := Option.bind_eq_some_iff.mp hframe
  obtain ⟨ptr, hget, -⟩ := h.cache.hash.getFn_some hlookup
  obtain ⟨fdcache', e, htouch, hfd', hfdof, hnone⟩ := fd_touch s.fdcache h.fdcache build os key
  cases e with
  | none => exact absurd hserved (hnone.mp rfl)
  | some slot =>
      obtain ⟨fd, hfd⟩ := hfdof slot rfl
      have hlt := h.frame_lt hframe
      refine ⟨{ fdcache' with world := (os.pwrite fdcache'.world fd (s.pages f) key.page).1 },
        if (os.pwrite fdcache'.world fd (s.pages f) key.page).2 = some os.pagesz then some 0
          else (os.pwrite fdcache'.world fd (s.pages f) key.page).2, ?_, hfd'⟩
      rw [flush]
      simp only [bind, Except.bind, htouch, hget]
      rw [Build.assert_of _ (by simp), Build.assert_of _ (by simp)]
      simp only [hfd, Ihash.load_eq (h.cache.hash.of_getFn hget).1, h.frame_eq hframe hget, frame, hlt,
        if_true]
      rfl

end Cached

/-! ### Bytes -/

section Bytes

variable {s s' : Pagecache W Page} {pagesz : Nat} {addr : Int} {byte : UInt8}

theorem storeByte_eq_ok (h : s.storeByte pagesz addr byte = .ok s') :
    (0 ≤ addr ∧ addr.toNat < s.stack.listsz * pagesz) ∧ s' = { s with
      pages := Function.update s.pages (addr.toNat / pagesz)
        (Function.update (s.pages (addr.toNat / pagesz)) (addr.toNat % pagesz) byte) } := by
  unfold storeByte at h
  split at h
  · rename_i hrange
    cases h
    exact ⟨hrange, rfl⟩
  · cases h

theorem loadByte_eq_ok (h : s.loadByte pagesz addr = .ok byte) :
    (0 ≤ addr ∧ addr.toNat < s.stack.listsz * pagesz)
      ∧ s.pages (addr.toNat / pagesz) (addr.toNat % pagesz) = byte := by
  unfold loadByte at h
  split at h
  · rename_i hrange
    cases h
    exact ⟨hrange, rfl⟩
  · cases h

theorem addr_eq_of_parts {addr' : Int} (h : 0 ≤ addr) (h' : 0 ≤ addr')
    (hframe : addr'.toNat / pagesz = addr.toNat / pagesz)
    (hoffset : addr'.toNat % pagesz = addr.toNat % pagesz) : addr' = addr := by
  have hdiv := Nat.div_add_mod addr.toNat pagesz
  have hdiv' := Nat.div_add_mod addr'.toNat pagesz
  rw [hframe, hoffset, hdiv] at hdiv'
  omega

theorem pages_of_storeByte (h : s.storeByte pagesz addr byte = .ok s') (g o : Nat) :
    s'.pages g o
      = if g = addr.toNat / pagesz ∧ o = addr.toNat % pagesz then byte else s.pages g o := by
  obtain ⟨-, rfl⟩ := storeByte_eq_ok h
  by_cases hg : g = addr.toNat / pagesz
  · subst hg
    by_cases ho : o = addr.toNat % pagesz
    · simp [ho]
    · simp [ho]
  · simp [hg]

theorem loadByte_of_storeByte (h : s.storeByte pagesz addr byte = .ok s') (addr' : Int) :
    s'.loadByte pagesz addr' = if addr' = addr then .ok byte else s.loadByte pagesz addr' := by
  obtain ⟨hrange, hs'⟩ := storeByte_eq_ok h
  have hlistsz : s'.stack.listsz = s.stack.listsz := by rw [hs']
  unfold loadByte
  rw [hlistsz, pages_of_storeByte h]
  by_cases heq : addr' = addr
  · subst heq
    rw [if_pos hrange, if_pos rfl, if_pos ⟨rfl, rfl⟩]
  · rw [if_neg heq]
    by_cases hrange' : 0 ≤ addr' ∧ addr'.toNat < s.stack.listsz * pagesz
    · rw [if_pos hrange', if_pos hrange', if_neg]
      rintro ⟨hframe, hoffset⟩
      exact heq (addr_eq_of_parts hrange.1 hrange'.1 hframe hoffset)
    · rw [if_neg hrange', if_neg hrange']

end Bytes

end Pagecache

namespace TranPage

/-! ### Addresses of flags -/

section Addresses

variable {d d' : Int64} {k : UInt8}

theorem toInt_div_eight (d : Int64) : (d / 8).toInt = d.toInt.tdiv 8 :=
  Int64.toInt_div_of_ne_right d 8 (by decide)

theorem toInt_mod_eight (d : Int64) : (d % 8).toInt = d.toInt.tmod 8 := Int64.toInt_mod d 8

theorem eq_of_div_of_mod (hdiv : (d / 8).toInt = (d' / 8).toInt)
    (hmod : (d % 8).toInt = (d' % 8).toInt) : d = d' := by
  rw [toInt_div_eight, toInt_div_eight] at hdiv
  rw [toInt_mod_eight, toInt_mod_eight] at hmod
  apply Int64.toInt_inj.mp
  rw [← Int.mul_tdiv_add_tmod d.toInt 8, hdiv, hmod, Int.mul_tdiv_add_tmod]

theorem of_shiftAmount (h : shiftAmount (d % 8) = .ok k) :
    (k.toNat : Int) = (d % 8).toInt ∧ k.toNat < 8 := by
  unfold shiftAmount at h
  split at h
  · rename_i hnonneg
    cases h
    have hlt : (d % 8).toInt < 8 := by
      rw [toInt_mod_eight]
      exact Int.tmod_lt_of_pos _ (by decide)
    have hnonneg' : 0 ≤ (d % 8).toInt := Int64.le_iff_toInt_le.mp hnonneg
    have hnat : (d % 8).toUInt64.toNat = (d % 8).toInt.toNat := Int64.toNat_toUInt64_of_le hnonneg
    rw [UInt64.toNat_toUInt8, hnat]
    omega
  · cases h

theorem exists_shiftAmount (h : 0 ≤ d) : ∃ k, shiftAmount (d % 8) = .ok k := by
  unfold shiftAmount
  rw [if_pos]
  · exact ⟨_, rfl⟩
  · rw [Int64.le_iff_toInt_le] at h ⊢
    rw [toInt_mod_eight]
    exact Int.tmod_nonneg _ h

theorem getBit_putBit (byte : UInt8) {j : UInt8} (hj : j.toNat < 8) (hk : k.toNat < 8) (flag : TranFlag) :
    getBit (putBit byte k flag) j = if j = k then flag else getBit byte j := by
  have hget : ∀ b : UInt8, getBit b j = if ByteBits.test b j then .commited else .aborted := by
    intro b
    simp [getBit, ByteBits.test]
  have hset : ByteBits.test (putBit byte k .commited) j = _ := ByteBits.test_set hj hk
  have hclear : ByteBits.test (putBit byte k .aborted) j = _ := ByteBits.test_clear hj hk
  rw [hget, hget]
  cases flag with
  | aborted =>
      rw [hclear]
      by_cases heq : j = k
      · simp [heq]
      · simp [heq]
  | commited =>
      rw [hset]
      by_cases heq : j = k
      · simp [heq]
      · simp [heq]

end Addresses

/-! ### One flag in memory -/

section Memory

variable {W : Type} {build : Build} {pagesz f : Nat} {s s' : Pagecache W Page} {tid : Int64}
  {flag : TranFlag}

theorem of_writeFlag (h : writeFlag build pagesz s f tid flag = .ok s') :
    (build = .debug → 0 < offset (s.pages f) tid) ∧ ∃ byte k,
      s.loadByte pagesz (datumAddr pagesz f (offset (s.pages f) tid / 8)) = .ok byte
        ∧ shiftAmount (offset (s.pages f) tid % 8) = .ok k
        ∧ s.storeByte pagesz (datumAddr pagesz f (offset (s.pages f) tid / 8)) (putBit byte k flag)
          = .ok s' := by
  obtain ⟨⟨⟩, hassert, h⟩ := bind_eq_ok.mp h
  obtain ⟨byte, hload, h⟩ := bind_eq_ok.mp h
  obtain ⟨k, hshift, h⟩ := bind_eq_ok.mp h
  exact ⟨Build.assert_eq_ok.mp hassert, byte, k, hload, hshift, h⟩

/-- Reading after a write that left `tid_start` alone. -/
theorem readFlag_of_writeFlag (h : writeFlag build pagesz s f tid flag = .ok s')
    (hstart : tidStart (s'.pages f) = tidStart (s.pages f)) (tid' : Int64) :
    readFlag build pagesz s' f tid'
      = if tid' = tid then .ok flag else readFlag build pagesz s f tid' := by
  obtain ⟨hpos, byte, k, hload, hshift, hstore⟩ := of_writeFlag h
  obtain ⟨hkval, hk⟩ := of_shiftAmount hshift
  have hoffset : offset (s'.pages f) tid' = offset (s.pages f) tid' := by rw [offset, offset, hstart]
  simp only [readFlag, hoffset, Pagecache.loadByte_of_storeByte hstore]
  by_cases htid : tid' = tid
  · subst htid
    have hassert : build.assert (0 ≤ offset (s.pages f) tid') = .ok () :=
      Build.assert_eq_ok.mpr fun hdebug => Int64.le_of_lt (hpos hdebug)
    rw [if_pos rfl, if_pos rfl, hassert]
    simp only [bind, Except.bind, hshift, getBit_putBit _ hk hk, if_true]
    rfl
  rw [if_neg htid]
  by_cases haddr : datumAddr pagesz f (offset (s.pages f) tid' / 8)
      = datumAddr pagesz f (offset (s.pages f) tid / 8)
  · have hdiv : (offset (s.pages f) tid' / 8).toInt = (offset (s.pages f) tid / 8).toInt := by
      unfold datumAddr at haddr
      omega
    rw [if_pos haddr, haddr, hload]
    cases hshift' : shiftAmount (offset (s.pages f) tid' % 8) with
    | error e => simp only [bind, Except.bind]
    | ok j =>
        obtain ⟨hjval, hj⟩ := of_shiftAmount hshift'
        have hne : j ≠ k := by
          rintro rfl
          have hsame := eq_of_div_of_mod hdiv (hjval.symm.trans hkval)
          exact htid ((Int64.sub_left_inj _).mp hsame)
        simp only [bind, Except.bind, getBit_putBit _ hj hk, if_neg hne]
  · rw [if_neg haddr]

/-- The flag of an id lies in the flag area of its page; a debug build also refuses the first id. -/
def InFlagArea (build : Build) (pagesz : Nat) (page : Page) (tid : Int64) : Prop :=
  (build = .debug → offset page tid ≠ 0) ∧ 0 ≤ offset page tid
    ∧ (offset page tid).toInt < 8 * ((pagesz - 8 : Nat) : Int)

/-- No byte differs but bytes of the flag area in frame `f`. -/
def WritesFlagsOnly (pagesz f : Nat) (s s' : Pagecache W Page) : Prop :=
  ∀ g o, o < pagesz → s'.pages g o ≠ s.pages g o → g = f ∧ 8 ≤ o

theorem WritesFlagsOnly.tidStart_eq (h : WritesFlagsOnly pagesz f s s') (hpagesz : 8 ≤ pagesz) :
    tidStart (s'.pages f) = tidStart (s.pages f) := by
  have hsame : ∀ i < 8, s'.pages f i = s.pages f i := by
    intro i hi
    by_contra hne
    have hoffset := (h f i (by omega) hne).2
    omega
  unfold tidStart
  simp only [List.range, List.range.loop, List.foldr, hsame 0 (by decide), hsame 1 (by decide),
    hsame 2 (by decide), hsame 3 (by decide), hsame 4 (by decide), hsame 5 (by decide),
    hsame 6 (by decide), hsame 7 (by decide)]

theorem writeFlag_of_inFlagArea (hf : f < s.stack.listsz)
    (h : InFlagArea build pagesz (s.pages f) tid) (flag : TranFlag) :
    ∃ s', writeFlag build pagesz s f tid flag = .ok s' ∧ WritesFlagsOnly pagesz f s s' := by
  obtain ⟨hdebug, hnonneg, hlt⟩ := h
  obtain ⟨k, hshift⟩ := exists_shiftAmount hnonneg
  have hnonneg' : 0 ≤ (offset (s.pages f) tid).toInt := Int64.le_iff_toInt_le.mp hnonneg
  have hdiv : (offset (s.pages f) tid / 8).toInt = (offset (s.pages f) tid).toInt / 8 := by
    rw [toInt_div_eight, Int.tdiv_eq_ediv_of_nonneg hnonneg']
  obtain ⟨o, ho, ho8, haddr⟩ : ∃ o, o < pagesz ∧ 8 ≤ o ∧
      datumAddr pagesz f (offset (s.pages f) tid / 8) = ((f * pagesz + o : Nat) : Int) := by
    refine ⟨8 + (offset (s.pages f) tid / 8).toInt.toNat, by omega, by omega, ?_⟩
    unfold datumAddr
    push_cast
    omega
  have hpage : f * pagesz + pagesz ≤ s.stack.listsz * pagesz := by
    rw [← Nat.succ_mul]
    exact Nat.mul_le_mul_right _ hf
  have hrange : 0 ≤ ((f * pagesz + o : Nat) : Int)
      ∧ ((f * pagesz + o : Nat) : Int).toNat < s.stack.listsz * pagesz := by
    constructor
    · omega
    · rw [Int.toNat_natCast]
      omega
  have hframe : (f * pagesz + o) / pagesz = f := by
    rw [Nat.mul_comm, Nat.mul_add_div (by omega), Nat.div_eq_of_lt ho, Nat.add_zero]
  have hoffset : (f * pagesz + o) % pagesz = o := by
    rw [Nat.mul_comm, Nat.mul_add_mod, Nat.mod_eq_of_lt ho]
  have hassert : build.assert (0 < offset (s.pages f) tid) = .ok () := by
    refine Build.assert_eq_ok.mpr fun hd => ?_
    have hne := hdebug hd
    rw [Int64.lt_iff_toInt_lt]
    rw [Ne, ← Int64.toInt_inj] at hne
    have hzero : (0 : Int64).toInt = 0 := rfl
    omega
  have hstore : ∀ byte, ∃ s', s.storeByte pagesz ((f * pagesz + o : Nat) : Int) byte = .ok s' := by
    intro byte
    unfold Pagecache.storeByte
    rw [if_pos hrange]
    exact ⟨_, rfl⟩
  obtain ⟨s', hs'⟩ := hstore (putBit (s.pages f o) k flag)
  refine ⟨s', ?_, fun g i hi hne => ?_⟩
  · have hload : s.loadByte pagesz ((f * pagesz + o : Nat) : Int) = .ok (s.pages f o) := by
      unfold Pagecache.loadByte
      rw [if_pos hrange, Int.toNat_natCast, hframe, hoffset]
    unfold writeFlag
    simp only [hassert, haddr, hload, hshift, hs', bind, Except.bind]
  · rw [Pagecache.pages_of_storeByte hs', Int.toNat_natCast, hframe, hoffset] at hne
    split at hne
    · rename_i heq
      exact ⟨heq.1, by omega⟩
    · exact absurd rfl hne

/-- Writes of both flags stay in the flag area only for an id whose flag lies there: one of them changes
the byte it writes. -/
theorem inFlagArea_of_writeFlag
    (h : ∀ flag, ∃ s', writeFlag build pagesz s f tid flag = .ok s' ∧ WritesFlagsOnly pagesz f s s') :
    InFlagArea build pagesz (s.pages f) tid := by
  obtain ⟨s₀, hwrite₀, -⟩ := h .aborted
  obtain ⟨hpos, byte, k, hload, hshift, -⟩ := of_writeFlag hwrite₀
  obtain ⟨hkval, hk⟩ := of_shiftAmount hshift
  obtain ⟨hrange, hbyte⟩ := Pagecache.loadByte_eq_ok hload
  obtain ⟨flag, hflag⟩ : ∃ flag, getBit byte k ≠ flag := by
    cases getBit byte k with
    | aborted => exact ⟨.commited, by decide⟩
    | commited => exact ⟨.aborted, by decide⟩
  obtain ⟨s', hwrite, honly⟩ := h flag
  obtain ⟨-, byte', k', hload', hshift', hstore⟩ := of_writeFlag hwrite
  rw [hload] at hload'
  rw [hshift] at hshift'
  cases hload'
  cases hshift'
  have hchanged : putBit byte k flag ≠ byte := by
    intro heq
    have hput := getBit_putBit byte hk hk flag
    rw [heq, if_pos rfl] at hput
    exact hflag hput
  have hpagesz : 0 < pagesz := by
    rcases Nat.eq_zero_or_pos pagesz with rfl | hpos'
    · simp at hrange
    · exact hpos'
  obtain ⟨hframe, hoffset⟩ := honly _ _ (Nat.mod_lt _ hpagesz) (by
    rw [Pagecache.pages_of_storeByte hstore, if_pos ⟨rfl, rfl⟩, hbyte]
    exact hchanged)
  have hsum := Nat.div_add_mod
    (datumAddr pagesz f (offset (s.pages f) tid / 8)).toNat pagesz
  have hmodlt := Nat.mod_lt (datumAddr pagesz f (offset (s.pages f) tid / 8)).toNat hpagesz
  rw [hframe, Nat.mul_comm] at hsum
  have haddr : datumAddr pagesz f (offset (s.pages f) tid / 8)
      = ((f * pagesz : Nat) : Int) + 8 + (offset (s.pages f) tid / 8).toInt := by
    unfold datumAddr
    push_cast
    rfl
  have hdivpos : 0 ≤ (offset (s.pages f) tid / 8).toInt
      ∧ (offset (s.pages f) tid / 8).toInt < ((pagesz - 8 : Nat) : Int) := by
    have hnonneg := hrange.1
    rw [haddr] at hsum hmodlt hoffset hnonneg
    omega
  have hdecomp := Int.mul_tdiv_add_tmod (offset (s.pages f) tid).toInt 8
  rw [← toInt_div_eight, ← toInt_mod_eight, ← hkval] at hdecomp
  refine ⟨fun hdebug hzero => ?_, ?_, by omega⟩
  · have hlt := hpos hdebug
    rw [hzero] at hlt
    exact absurd hlt (by decide)
  · rw [Int64.le_iff_toInt_le]
    have hzero : (0 : Int64).toInt = 0 := rfl
    omega

end Memory

/-! ### The store behind the page cache -/

section Store

variable {W : Type} {build : Build} {os : Os W Page} {tran : Gid} {s s₁ : Pagecache W Page}
  {m : BucketMap Int64 (Icache.Entry (Option Nat))} {l fl sl sfl : List Nat} {f : Nat} {tid : Int64}

/-- The page cache has the transaction page in frame `f` after the touch that leads to `s₁`, and the
file cache reaches the file of the page for the flush. -/
structure Found (build : Build) (os : Os W Page) (tran : Gid) (s s₁ : Pagecache W Page) (f : Nat) :
    Prop where
  page : s.putPage build os tran = .ok (s₁, some f)
  file : Pagecache.FileServed build os s₁.fdcache tran.fileId

/-- The flag of an id is stored: what is put is got, the flags of other ids stay, and no byte outside
the flag area is written. -/
def Stores (build : Build) (os : Os W Page) (tran : Gid) (s s₁ : Pagecache W Page) (f : Nat)
    (tid : Int64) : Prop :=
  ∀ flag, ∃ s', tranFlagPut build os tran s tid flag = .ok s'
    ∧ (tranFlagGet build os tran s' tid).map Prod.snd = .ok flag
    ∧ (∀ tid' ≠ tid, (tranFlagGet build os tran s' tid').map Prod.snd
        = (tranFlagGet build os tran s tid').map Prod.snd)
    ∧ WritesFlagsOnly os.pagesz f s₁ s'

theorem readFlag_congr {pagesz : Nat} {s s' : Pagecache W Page} (hpages : s'.pages = s.pages)
    (hstack : s'.stack = s.stack) (tid : Int64) :
    readFlag build pagesz s' f tid = readFlag build pagesz s f tid := by
  simp only [readFlag, Pagecache.loadByte, hpages, hstack]

theorem tranFlagGet_eq (hpage : s.putPage build os tran = .ok (s₁, some f)) (tid : Int64) :
    (tranFlagGet build os tran s tid).map Prod.snd = readFlag build os.pagesz s₁ f tid := by
  rw [tranFlagGet, hpage]
  simp only [bind, Except.bind]
  rw [Build.assert_of _ (by simp)]
  cases readFlag build os.pagesz s₁ f tid with
  | error e => rfl
  | ok flag => rfl

/-- A put is a write of the flag in the frame of the page, and the page stays in that frame. -/
theorem tranFlagPut_eq (h : s₁.Inv m l fl sl sfl) (hframe : Pagecache.frameOf m tran.key = some f)
    (hfound : Found build os tran s s₁ f) (tid : Int64) (flag : TranFlag) :
    (∃ e, writeFlag build os.pagesz s₁ f tid flag = .error e
        ∧ tranFlagPut build os tran s tid flag = .error e)
      ∨ ∃ s₂ s' s'', writeFlag build os.pagesz s₁ f tid flag = .ok s₂
        ∧ tranFlagPut build os tran s tid flag = .ok s' ∧ s'.pages = s₂.pages
        ∧ s'.Inv m l fl sl sfl ∧ s'.putPage build os tran = .ok (s'', some f)
        ∧ s''.pages = s₂.pages ∧ s''.stack = s₂.stack := by
  rw [tranFlagPut, hfound.page]
  simp only [bind, Except.bind]
  rw [Build.assert_of _ (by simp)]
  cases hwrite : writeFlag build os.pagesz s₁ f tid flag with
  | error e => exact Or.inl ⟨e, rfl, rfl⟩
  | ok s₂ =>
      right
      obtain ⟨-, byte, k, -, -, hstore⟩ := of_writeFlag hwrite
      obtain ⟨-, hs₂⟩ := Pagecache.storeByte_eq_ok hstore
      have hinv₂ : s₂.Inv m l fl sl sfl := by
        rw [hs₂]
        exact ⟨h.cache, h.stack, h.size, h.fdcache, h.frames⟩
      have hfile : Pagecache.FileServed build os s₂.fdcache tran.fileId := by
        rw [hs₂]
        exact hfound.file
      obtain ⟨fdcache', n, hflush, hfd'⟩ := hinv₂.flush_hit hframe hfile
      have hinv' : Pagecache.Inv { s₂ with fdcache := fdcache' } m l fl sl sfl :=
        ⟨hinv₂.cache, hinv₂.stack, hinv₂.size, hfd', hinv₂.frames⟩
      obtain ⟨list', l', hput, -⟩ := hinv'.putPage_hit build os hframe
      refine ⟨s₂, { s₂ with fdcache := fdcache' }, _, rfl, ?_, rfl, hinv', hput, rfl, rfl⟩
      simp only [hflush]
      rfl

theorem stores_of_inFlagArea (h : s₁.Inv m l fl sl sfl) (hframe : Pagecache.frameOf m tran.key = some f)
    (hfound : Found build os tran s s₁ f) (harea : InFlagArea build os.pagesz (s₁.pages f) tid) :
    Stores build os tran s s₁ f tid := by
  intro flag
  obtain ⟨s₂, hwrite, honly⟩ := writeFlag_of_inFlagArea (h.frame_lt hframe) harea flag
  rcases tranFlagPut_eq h hframe hfound tid flag with ⟨e, herror, -⟩ | ⟨s₂', s', s'', hwrite',
    hput, hpages, -, hpage, hpages'', hstack''⟩
  · rw [hwrite] at herror
    cases herror
  rw [hwrite] at hwrite'
  cases hwrite'
  have hpagesz : 8 ≤ os.pagesz := by
    have hnonneg := Int64.le_iff_toInt_le.mp harea.2.1
    have hlt := harea.2.2
    have hzero : (0 : Int64).toInt = 0 := rfl
    omega
  have hread : ∀ tid', (tranFlagGet build os tran s' tid').map Prod.snd
      = if tid' = tid then .ok flag else readFlag build os.pagesz s₁ f tid' := by
    intro tid'
    rw [tranFlagGet_eq hpage, readFlag_congr hpages'' hstack'',
      readFlag_of_writeFlag hwrite (honly.tidStart_eq hpagesz)]
  refine ⟨s', hput, ?_, fun tid' htid => ?_, fun g o ho hne => ?_⟩
  · rw [hread, if_pos rfl]
  · rw [hread, if_neg htid, tranFlagGet_eq hfound.page]
  · rw [hpages] at hne
    exact honly g o ho hne

theorem inFlagArea_of_stores (h : s₁.Inv m l fl sl sfl) (hframe : Pagecache.frameOf m tran.key = some f)
    (hfound : Found build os tran s s₁ f) (hstores : Stores build os tran s s₁ f tid) :
    InFlagArea build os.pagesz (s₁.pages f) tid := by
  refine inFlagArea_of_writeFlag fun flag => ?_
  obtain ⟨s', hput, -, -, honly⟩ := hstores flag
  rcases tranFlagPut_eq h hframe hfound tid flag with ⟨e, -, herror⟩ | ⟨s₂, s'', -, hwrite,
    hput', hpages, -⟩
  · rw [hput] at herror
    cases herror
  · rw [hput] at hput'
    cases hput'
    refine ⟨s₂, hwrite, fun g o ho hne => honly g o ho ?_⟩
    rw [hpages]
    exact hne

/-- **The flag store.** Whatever the pages hold, the flag of an id is stored exactly when it lies in the
flag area of the transaction page. -/
theorem stores_iff (h : s.Inv m l fl sl sfl) (hos : os.PageIoSucceeds) (htran : tran.key ≠ ihashUndef)
    (hfound : Found build os tran s s₁ f) (tid : Int64) :
    Stores build os tran s s₁ f tid ↔ InFlagArea build os.pagesz (s₁.pages f) tid := by
  obtain ⟨m', l', fl', sl', sfl', hinv, hframe⟩ := h.of_putPage hos htran hfound.page
  exact ⟨inFlagArea_of_stores hinv hframe hfound, stores_of_inFlagArea hinv hframe hfound⟩

end Store

/-! ### The end of the page -/

/-- Two frames of zeros. -/
def zeroPages : Pagecache Unit Page := Pagecache.smallCache fun _ => 0

/-- Two frames of zeros, the first one backing the transaction page. -/
def zeroTran : Pagecache Unit Page :=
  match zeroPages.putPage .debug Pagecache.emptyFiles ⟨9⟩ with
  | .ok (s, _) => s
  | .error _ => zeroPages

theorem found_zeroTran : Found .debug Pagecache.emptyFiles ⟨9⟩ zeroPages zeroTran 0 :=
  ⟨rfl, _, _, rfl⟩

theorem inv_zeroPages : ∃ m l fl sl sfl, zeroPages.Inv m l fl sl sfl := by
  obtain ⟨m, fl, hinv⟩ := Icache.inv_init Pagecache.initFn_smallFdcache
  exact (Pagecache.holds_init ⟨m, [], fl, hinv⟩ (Pagecache.init_smallCache fun _ => 0)).2

/-- The last id whose flag lies in a page of 4096 bytes. -/
theorem stores_last_of_page : Stores .debug Pagecache.emptyFiles ⟨9⟩ zeroPages zeroTran 0 32703 := by
  obtain ⟨m, l, fl, sl, sfl, hinv⟩ := inv_zeroPages
  exact (stores_iff hinv Pagecache.emptyFiles_succeeds (by decide) found_zeroTran 32703).mpr
    ⟨fun _ => by decide, by decide, by decide⟩

/-- The flag of the next id is the first bit of the next frame. -/
theorem put_beyond_page :
    (∃ s, tranFlagPut .debug Pagecache.emptyFiles ⟨9⟩ zeroPages 32704 .commited = .ok s
        ∧ zeroTran.pages 1 0 = 0 ∧ s.pages 1 0 = 1)
      ∧ ¬ Stores .debug Pagecache.emptyFiles ⟨9⟩ zeroPages zeroTran 0 32704 := by
  refine ⟨⟨_, rfl, rfl, rfl⟩, fun hstores => ?_⟩
  obtain ⟨m, l, fl, sl, sfl, hinv⟩ := inv_zeroPages
  obtain ⟨m', l', fl', sl', sfl', hinv', hframe⟩ :=
    hinv.of_putPage Pagecache.emptyFiles_succeeds (by decide) found_zeroTran.page
  have harea := inFlagArea_of_stores hinv' hframe found_zeroTran hstores
  exact absurd harea.2.2 (by decide)

end TranPage

end Scroller

import Scroller.Proof.PageStore
import Scroller.Proof.TranFlags

/-!
# The flags outlive the server

`tran_flag_put` flushes the transaction page, so that the page in memory and the page in the file never differ
behind it. The flags form a store that neither evictions nor crashes touch.
-/

namespace Scroller.TranPage

open CrashStore (Known)
open Machine (Follows)
open Pagecache (Coherent)

variable {W : Type} {os : Os W Page} {files : os.Files} {build : Build} {pagesz f : Nat} {tran : Gid}
  {s s' : Pagecache W Page} {page : Page} {tid tid' : Int64} {flag : TranFlag}

/-! ### Flags of one page -/

/-- The byte of a flag, counted from the start of its page. -/
def flagByte (page : Page) (tid : Int64) : Nat := 8 + (offset page tid / 8).toInt.toNat

def flagShift (page : Page) (tid : Int64) : UInt8 := (offset page tid % 8).toUInt64.toUInt8

def flagIn (page : Page) (tid : Int64) : TranFlag := getBit (page (flagByte page tid)) (flagShift page tid)

def putIn (page : Page) (tid : Int64) (flag : TranFlag) : Page :=
  Function.update page (flagByte page tid) (putBit (page (flagByte page tid)) (flagShift page tid) flag)

/-- An id has a flag in the page, the first id too. -/
def HasFlag (pagesz : Nat) (page : Page) (tid : Int64) : Prop :=
  0 ≤ offset page tid ∧ (offset page tid).toInt < 8 * ((pagesz - 8 : Nat) : Int)

theorem InFlagArea.hasFlag (h : InFlagArea build pagesz page tid) : HasFlag pagesz page tid := h.2

theorem HasFlag.shiftAmount_eq (h : HasFlag pagesz page tid) :
    shiftAmount (offset page tid % 8) = .ok (flagShift page tid) := by
  obtain ⟨k, hk⟩ := exists_shiftAmount h.1
  rw [hk]
  unfold shiftAmount at hk
  split at hk
  · exact hk.symm
  · cases hk

/-- The address of a flag is its byte in the frame of the page. -/
theorem HasFlag.datumAddr_eq (h : HasFlag pagesz page tid) :
    datumAddr pagesz f (offset page tid / 8) = ((f * pagesz + flagByte page tid : Nat) : Int)
      ∧ flagByte page tid < pagesz := by
  obtain ⟨hnonneg, hlt⟩ := h
  have hnonneg : 0 ≤ (offset page tid).toInt := Int64.le_iff_toInt_le.mp hnonneg
  have hdiv : (offset page tid / 8).toInt = (offset page tid).toInt / 8 := by
    rw [toInt_div_eight, Int.tdiv_eq_ediv_of_nonneg hnonneg]
  constructor
  · rw [datumAddr, flagByte]
    push_cast
    omega
  · rw [flagByte]
    omega

section Frame

theorem addr_in_frame {o : Nat} (hf : f < s.stack.listsz) (ho : o < pagesz) :
    f * pagesz + o < s.stack.listsz * pagesz ∧ (f * pagesz + o) / pagesz = f ∧ (f * pagesz + o) % pagesz = o := by
  have hpage : f * pagesz + pagesz ≤ s.stack.listsz * pagesz := by
    rw [← Nat.succ_mul]
    exact Nat.mul_le_mul_right _ hf
  refine ⟨by omega, ?_, ?_⟩
  · rw [Nat.mul_comm, Nat.mul_add_div (by omega), Nat.div_eq_of_lt ho, Nat.add_zero]
  · rw [Nat.mul_comm, Nat.mul_add_mod, Nat.mod_eq_of_lt ho]

theorem loadByte_in_frame {o : Nat} (hf : f < s.stack.listsz) (ho : o < pagesz) :
    s.loadByte pagesz ((f * pagesz + o : Nat) : Int) = .ok (s.pages f o) := by
  obtain ⟨hlt, hdiv, hmod⟩ := addr_in_frame (s := s) hf ho
  rw [Pagecache.loadByte, if_pos ⟨by omega, by omega⟩, Int.toNat_natCast, hdiv, hmod]

theorem storeByte_in_frame {o : Nat} (hf : f < s.stack.listsz) (ho : o < pagesz) (byte : UInt8) :
    s.storeByte pagesz ((f * pagesz + o : Nat) : Int) byte
      = .ok { s with pages := Function.update s.pages f (Function.update (s.pages f) o byte) } := by
  obtain ⟨hlt, hdiv, hmod⟩ := addr_in_frame (s := s) hf ho
  rw [Pagecache.storeByte, if_pos ⟨by omega, by omega⟩, Int.toNat_natCast, hdiv, hmod]

end Frame

theorem readFlag_eq (hf : f < s.stack.listsz) (h : HasFlag pagesz (s.pages f) tid) :
    readFlag build pagesz s f tid = .ok (flagIn (s.pages f) tid) := by
  obtain ⟨haddr, hlt⟩ := h.datumAddr_eq (f := f)
  unfold readFlag
  simp only [Build.assert_of build h.1, haddr, loadByte_in_frame hf hlt, h.shiftAmount_eq, bind, Except.bind]
  rfl

theorem writeFlag_eq (hf : f < s.stack.listsz) (h : InFlagArea build pagesz (s.pages f) tid) (flag : TranFlag) :
    writeFlag build pagesz s f tid flag
      = .ok { s with pages := Function.update s.pages f (putIn (s.pages f) tid flag) } := by
  obtain ⟨s', hwrite, -⟩ := writeFlag_of_inFlagArea hf h flag
  rw [hwrite]
  obtain ⟨-, byte, k, hload, hshift, hstore⟩ := of_writeFlag hwrite
  obtain ⟨haddr, hlt⟩ := h.hasFlag.datumAddr_eq (f := f)
  rw [haddr, loadByte_in_frame hf hlt] at hload
  rw [h.hasFlag.shiftAmount_eq] at hshift
  cases hload
  cases hshift
  rw [haddr, storeByte_in_frame hf hlt] at hstore
  exact hstore.symm

theorem tidStart_putIn (page : Page) (tid : Int64) (flag : TranFlag) : tidStart (putIn page tid flag) = tidStart page := by
  have hsame : ∀ i < 8, putIn page tid flag i = page i := by
    intro i hi
    refine Function.update_of_ne ?_ _ _
    rw [flagByte]
    omega
  unfold tidStart
  simp only [List.range, List.range.loop, List.foldr, hsame 0 (by decide), hsame 1 (by decide),
    hsame 2 (by decide), hsame 3 (by decide), hsame 4 (by decide), hsame 5 (by decide),
    hsame 6 (by decide), hsame 7 (by decide)]

theorem offset_congr {page' : Page} (h : tidStart page' = tidStart page) (tid : Int64) :
    offset page' tid = offset page tid := by rw [offset, offset, h]

theorem flagShift_lt (h : HasFlag pagesz page tid) :
    ((flagShift page tid).toNat : Int) = (offset page tid % 8).toInt ∧ (flagShift page tid).toNat < 8 :=
  of_shiftAmount h.shiftAmount_eq

theorem flagIn_putIn (h : HasFlag pagesz page tid) (h' : HasFlag pagesz page tid') (flag : TranFlag) :
    flagIn (putIn page tid flag) tid' = if tid' = tid then flag else flagIn page tid' := by
  obtain ⟨hval, hk⟩ := flagShift_lt h
  obtain ⟨hval', hk'⟩ := flagShift_lt h'
  have hsame := offset_congr (tidStart_putIn page tid flag) tid'
  have hbyte : flagByte (putIn page tid flag) tid' = flagByte page tid' := by rw [flagByte, flagByte, hsame]
  have hshift : flagShift (putIn page tid flag) tid' = flagShift page tid' := by rw [flagShift, flagShift, hsame]
  rw [flagIn, hbyte, hshift]
  by_cases hwhere : flagByte page tid' = flagByte page tid
  · rw [putIn, hwhere, Function.update_self, getBit_putBit _ hk' hk]
    by_cases htid : tid' = tid
    · subst htid
      rw [if_pos rfl, if_pos rfl]
    · have hne : flagShift page tid' ≠ flagShift page tid := by
        intro heq
        rw [heq, hval] at hval'
        have hdiv : (offset page tid' / 8).toInt = (offset page tid / 8).toInt := by
          have hd := Int64.le_iff_toInt_le.mp h.1
          have hd' := Int64.le_iff_toInt_le.mp h'.1
          have hpos : 0 ≤ (offset page tid / 8).toInt := by
            rw [toInt_div_eight]
            exact Int.tdiv_nonneg hd (by decide)
          have hpos' : 0 ≤ (offset page tid' / 8).toInt := by
            rw [toInt_div_eight]
            exact Int.tdiv_nonneg hd' (by decide)
          rw [flagByte, flagByte] at hwhere
          omega
        exact htid ((Int64.sub_left_inj _).mp (eq_of_div_of_mod hdiv hval'.symm))
      rw [if_neg hne, if_neg htid, flagIn, hwhere]
  · have htid : tid' ≠ tid := by
      rintro rfl
      exact hwhere rfl
    rw [if_neg htid, putIn, Function.update_of_ne hwhere, flagIn]

/-! ### The flags and the file -/

/-- Flags that nothing but a `put` changes. -/
inductive FlagStep : (Int64 → TranFlag) → FlagOp → Option TranFlag → (Int64 → TranFlag) → Prop
  | put {flags : Int64 → TranFlag} {tid : Int64} {flag : TranFlag} :
      FlagStep flags (.put tid flag) none (Function.update flags tid flag)
  | get {flags : Int64 → TranFlag} {tid : Int64} : FlagStep flags (.get tid) (some (flags tid)) flags
  | page {flags : Int64 → TranFlag} {op : PageOp Page} : FlagStep flags (.page op) none flags

/-- The ids have flags in the transaction page, and other operations leave that page alone. -/
def ValidFlagOp (build : Build) (pagesz : Nat) (tran : Gid) (page : Page) : FlagOp → Prop
  | .put tid _ => InFlagArea build pagesz page tid
  | .get tid => HasFlag pagesz page tid
  | .page op => Pagecache.ValidPageOp op ∧ op.Leaves tran

/-- The transaction page is the same in memory and in its file, and has the flags. -/
def Durable (files : os.Files) (tran : Gid) (page : Page) (s : Pagecache W Page) (flags : Int64 → TranFlag) : Prop :=
  ∃ a p, Coherent files s a ∧ a.Safe tran p ∧ tidStart p = tidStart page
    ∧ ∀ tid, HasFlag os.pagesz page tid → flagIn p tid = flags tid

section

variable {a : Known Gid Page} {p p₀ : Page} {flags : Int64 → TranFlag}

/-- The frame of a page that is known. -/
theorem found_of_putPage (h : Coherent files s a) (hos : os.PageIoSucceeds) (htran : tran.key ≠ ihashUndef)
    (hp : a.value tran = some p) {s₁ : Pagecache W Page} (hput : s.putPage build os tran = .ok (s₁, some f)) :
    s₁.pages f = p ∧ f < s₁.stack.listsz := by
  obtain ⟨m, l, fl, sl, sfl, hinv⟩ := h.inv
  obtain ⟨m', l', fl', sl', sfl', hinv', hframe⟩ := hinv.of_putPage hos htran hput
  refine ⟨?_, hinv'.frame_lt hframe⟩
  have hstep : s.stepPages build files (.use tran id)
      = .ok ({ s₁ with pages := Function.update s₁.pages f (s₁.pages f) }, some (s₁.pages f)) := by
    simp only [Pagecache.stepPages, hput, bind, Except.bind]
    rfl
  obtain ⟨a', hfound, -⟩ := h.use hos htran hstep
  cases hfound with
  | use hfound => exact hfound p hp

theorem stepPages_of_putPage {s₁ : Pagecache W Page} (hput : s.putPage build os tran = .ok (s₁, some f))
    (g : Page → Page) :
    s.stepPages build files (.use tran g)
      = .ok ({ s₁ with pages := Function.update s₁.pages f (g (s₁.pages f)) }, some (s₁.pages f)) := by
  simp only [Pagecache.stepPages, hput, bind, Except.bind]
  rfl

theorem Durable.put (h : Durable files tran p₀ s flags) (hos : os.PageIoSucceeds) (htran : tran.key ≠ ihashUndef)
    (hvalid : InFlagArea build os.pagesz p₀ tid) {s' : Pagecache W Page}
    (hput : tranFlagPut build os tran s tid flag = .ok s') :
    Durable files tran p₀ s' (Function.update flags tid flag) := by
  obtain ⟨a, p, hcoherent, ⟨hvalue, hversions⟩, hstart, hflags⟩ := h
  obtain ⟨⟨s₁, found⟩, hpage, hput⟩ := bind_eq_ok.mp hput
  obtain ⟨-, -, hput⟩ := bind_eq_ok.mp hput
  cases found with
  | none => cases hput
  | some f =>
      obtain ⟨s₂, hwrite, hput⟩ := bind_eq_ok.mp hput
      obtain ⟨⟨s₃, n⟩, hflush, hput⟩ := bind_eq_ok.mp hput
      cases hput
      obtain ⟨hp, hf⟩ := found_of_putPage hcoherent hos htran hvalue hpage
      have harea : InFlagArea build os.pagesz (s₁.pages f) tid := by
        rw [InFlagArea, hp, offset_congr hstart]
        exact hvalid
      rw [writeFlag_eq hf harea] at hwrite
      cases hwrite
      obtain ⟨a₁, huse, hcoherent₁⟩ := hcoherent.use hos htran (stepPages_of_putPage hpage (putIn · tid flag))
      have hstep : Pagecache.stepPages build files
          { s₁ with pages := Function.update s₁.pages f (putIn (s₁.pages f) tid flag) } (.flush tran)
            = .ok (s', none) := by
        simp only [Pagecache.stepPages, hflush, bind, Except.bind]
        rfl
      obtain ⟨a₂, hflushed, hcoherent₂⟩ := hcoherent₁.flush hos hstep
      cases huse with
      | use =>
          cases hflushed with
          | flush =>
              rw [hp] at hcoherent₂
              refine ⟨_, putIn p tid flag, hcoherent₂, Known.safe_flushed (Known.value_used _ _ _),
                (tidStart_putIn _ _ _).trans hstart, ?_⟩
              intro tid' htid'
              have hhas : ∀ t, HasFlag os.pagesz p₀ t → HasFlag os.pagesz p t := by
                intro t ht
                rw [HasFlag, offset_congr hstart]
                exact ht
              rw [flagIn_putIn (hhas _ hvalid.hasFlag) (hhas _ htid')]
              by_cases hsame : tid' = tid
              · subst hsame
                rw [if_pos rfl, Function.update_self]
              · rw [if_neg hsame, Function.update_of_ne hsame]
                exact hflags _ htid'

theorem Durable.get (h : Durable files tran p₀ s flags) (hos : os.PageIoSucceeds) (htran : tran.key ≠ ihashUndef)
    (hvalid : HasFlag os.pagesz p₀ tid) {s' : Pagecache W Page}
    (hget : tranFlagGet build os tran s tid = .ok (s', flag)) :
    flag = flags tid ∧ Durable files tran p₀ s' flags := by
  obtain ⟨a, p, hcoherent, hsafe, hstart, hflags⟩ := h
  obtain ⟨⟨s₁, found⟩, hpage, hget⟩ := bind_eq_ok.mp hget
  obtain ⟨-, -, hget⟩ := bind_eq_ok.mp hget
  cases found with
  | none => cases hget
  | some f =>
      obtain ⟨read, hread, hget⟩ := bind_eq_ok.mp hget
      cases hget
      obtain ⟨hp, hf⟩ := found_of_putPage hcoherent hos htran hsafe.1 hpage
      have hhas : HasFlag os.pagesz (s'.pages f) tid := by
        rw [hp, HasFlag, offset_congr hstart]
        exact hvalid
      rw [readFlag_eq hf hhas] at hread
      cases hread
      obtain ⟨a', huse, hcoherent'⟩ := hcoherent.use hos htran (stepPages_of_putPage hpage id)
      have hsame : ({ s' with pages := Function.update s'.pages f (id (s'.pages f)) } : Pagecache W Page) = s' := by
        rw [id, Function.update_eq_self]
      rw [hsame] at hcoherent'
      refine ⟨?_, a', p, hcoherent', ?_, hstart, hflags⟩
      · rw [hp]
        exact hflags _ hvalid
      · cases huse with
        | use =>
            rw [hp]
            refine ⟨Known.value_used _ _ _, ?_⟩
            have hself : (a.used tran (id p)).versions tran = (a.versions tran).map fun versions => insert p versions :=
              Function.update_self tran _ _
            rw [hself, hsafe.2]
            simp

theorem Durable.other (h : Durable files tran p₀ s flags) (hos : os.PageIoSucceeds) {op : PageOp Page}
    (hvalid : Pagecache.ValidPageOp op) (hleaves : op.Leaves tran) {s' : Pagecache W Page} {reply : Option Page}
    (hstep : s.stepPages build files op = .ok (s', reply)) : Durable files tran p₀ s' flags := by
  obtain ⟨a, p, hcoherent, hsafe, hstart, hflags⟩ := h
  obtain ⟨a', hfollows, hcoherent'⟩ : ∃ a', CrashStore.Step a op reply a' ∧ Coherent files s' a' := by
    cases op with
    | use key f => exact hcoherent.use hos hvalid hstep
    | flush key => exact hcoherent.flush hos hstep
    | crash boot => exact hcoherent.crash hstep
  exact ⟨a', p, hcoherent', hfollows.safe hleaves hsafe, hstart, hflags⟩

end

/-- **Flags outlive the server.** In every run from fresh caches over files that have the transaction page, with
other pages used and evicted and the server crashing at any time between two commands: a flag that is got is the
last one that was put, and the file has all of them. -/
theorem flags_outlive_crashes (files : os.Files) (hos : os.PageIoSucceeds) (htran : tran.key ≠ ihashUndef)
    {boot : Boot Page} {world : W} {s₀ : Pagecache W Page} (hboot : boot.cachesCreate world = .ok (some s₀))
    (hpage : files.page world tran = some page) (build : Build) {ops : List FlagOp}
    (hops : ∀ op ∈ ops, ValidFlagOp build os.pagesz tran page op) {hist : List (FlagOp × Option TranFlag)}
    (hexec : Machine.exec (stepFlags build files tran) s₀ ops = .ok (s, hist)) :
    ∃ flags, Follows FlagStep (flagIn page) hist flags
      ∧ ∃ p, files.page s.fdcache.world tran = some p ∧ ∀ tid, HasFlag os.pagesz page tid → flagIn p tid = flags tid := by
  have hstart : Durable files tran page s₀ (flagIn page) :=
    ⟨_, page, Pagecache.coherent_start hboot fun hp => hp, Known.safe_ofDisk hpage, rfl, fun _ _ => rfl⟩
  have hkept : ∀ s flags op s' reply, Durable files tran page s flags → ValidFlagOp build os.pagesz tran page op →
      stepFlags build files tran s op = .ok (s', reply) →
      ∃ flags', FlagStep flags op reply flags' ∧ Durable files tran page s' flags' := by
    intro s flags op s' reply h hop hstep
    cases op with
    | put tid flag =>
        obtain ⟨s₁, hput, hstep⟩ := bind_eq_ok.mp hstep
        cases hstep
        exact ⟨_, .put, h.put hos htran hop hput⟩
    | get tid =>
        obtain ⟨⟨s₁, flag⟩, hget, hstep⟩ := bind_eq_ok.mp hstep
        cases hstep
        obtain ⟨rfl, hdurable⟩ := h.get hos htran hop hget
        exact ⟨_, .get, hdurable⟩
    | page op =>
        obtain ⟨⟨s₁, found⟩, hpage, hstep⟩ := bind_eq_ok.mp hstep
        cases hstep
        exact ⟨_, .page, h.other hos hop.1 hop.2 hpage⟩
  obtain ⟨flags, hfollows, a, p, hcoherent, hsafe, -, hflags⟩ :=
    Machine.follows_of_exec (Durable files tran page) (ValidFlagOp build os.pagesz tran page) hkept hstart hops hexec
  obtain ⟨⟨q, hq, hondisk⟩, -⟩ := hcoherent.versions hsafe.2
  cases hq
  exact ⟨flags, hfollows, p, hondisk, hflags⟩

/-! ### A server with one frame -/

/-- The page 9 is a page of zeros. -/
def zeroDisk : Disk Page :=
  ⟨Function.update (fun _ => []) (gid2hex ⟨9⟩) [fun _ => 0], fun _ => none, 3⟩

def smallFlagOps : List FlagOp :=
  [.put 5 .commited, .page (.use ⟨2⟩ id), .page (.crash (Pagecache.smallBoot fun _ => 255)), .get 5, .get 6]

theorem replies_smallFlagOps :
    (((Pagecache.smallBoot fun _ => 255).cachesCreate zeroDisk).toOption.join.bind fun s₀ =>
        (Machine.exec (stepFlags .debug (Disk.documented (fun _ => 0) 4096) ⟨9⟩) s₀ smallFlagOps).toOption.map
      fun r => r.2.map Prod.snd) = some [none, none, none, some .commited, some .aborted] := by
  decide +kernel

theorem flags_outlive_crashes_small :
    ∃ flags, Follows FlagStep (flagIn fun _ => 0)
      (smallFlagOps.zip [none, none, none, some .commited, some .aborted]) flags := by
  obtain ⟨s₀, s, hboot, hexec⟩ := Pagecache.exec_of_replies replies_smallFlagOps
  have hpage : (Disk.documented (fun _ => 0) 4096).page zeroDisk ⟨9⟩ = some fun _ => 0 := rfl
  have hvalid : ∀ op ∈ smallFlagOps, ValidFlagOp .debug 4096 ⟨9⟩ (fun _ => 0) op := by
    have h2 : Gid.key ⟨2⟩ ≠ ihashUndef := by decide
    have h5 : InFlagArea .debug 4096 (fun _ => 0) 5 := ⟨fun _ => by decide, by decide, by decide⟩
    have h6 : HasFlag 4096 (fun _ => 0) 6 := ⟨by decide, by decide⟩
    simp [smallFlagOps, ValidFlagOp, Pagecache.ValidPageOp, CrashStore.Op.Leaves, h2, h5, h5.hasFlag, h6]
  obtain ⟨flags, hfollows, -⟩ := flags_outlive_crashes (Disk.documented (fun _ => 0) 4096)
    (Pagecache.calls_succeed _ 4096) (by decide) hboot hpage .debug hvalid hexec
  exact ⟨flags, hfollows⟩

end Scroller.TranPage

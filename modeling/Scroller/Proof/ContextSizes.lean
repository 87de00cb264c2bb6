import Scroller.LinearContext
import Scroller.Proof.BumpBlocks

/-!
# The sizes of a context

Every block of a context lies behind the record of the context and in front of its end, and no size wraps, exactly
where the context has room for its record and no request is so large that it wraps when it is rounded up.
-/

namespace Scroller.ContextKind

variable {kind : ContextKind} {build : Build} {m m' : BumpRegion} {sz : Nat} {r : Option Nat}

/-- The sums and the difference of sizes that an allocation computes: `sz + align`, the size with the header, what is
left of the context, and the next mark. -/
def sizes (kind : ContextKind) (m : BumpRegion) (sz : Nat) : List Int :=
  if sz = 0 then []
  else
    [(sz : Int) + 16, (alignMaxWord sz : Int) + kind.headerSize, (m.size.toNat : Int) - m.current]
      ++ if alignMaxWord sz + kind.headerSize ≤ m.size.toNat - m.current then
          [(m.current : Int) + (alignMaxWord sz + kind.headerSize)] else []

/-- A block of at least the requested size between the record of the context and its end, which is not handed out
again. -/
structure Holds (build : Build) (m m' : BumpRegion) (sz p : Nat) : Prop where
  behind_record : sizeofBumpContext build ≤ p
  behind_mark : m.current ≤ p
  below_mark : p + sz ≤ m'.current
  inside : p + sz ≤ m.size.toNat

/-- A call answers with `NULL` or with such a block, the mark stays in the context, and no size wraps. -/
def Serves (kind : ContextKind) (build : Build) (m : BumpRegion) (op : ContextOp) : Prop :=
  (∃ m' r, kind.step build m op = .ok (m', r) ∧ m'.current ≤ m'.size.toNat
      ∧ ∀ sz p, op = .alloc sz → r = some p → Holds build m m' sz.toNat p)
    ∧ ∀ sz, op = .alloc sz → ∀ n ∈ kind.sizes m sz.toNat, 0 ≤ n ∧ n < 2 ^ 64

/-- The mark lies in the context from its creation on, and every call of a run is served. -/
def Sized (kind : ContextKind) (build : Build) (m : BumpRegion) (ops : List ContextOp) : Prop :=
  m.current ≤ m.size.toNat ∧ Machine.Along (kind.step build) (kind.Serves build) m ops

/-- The largest request that does not wrap when it is rounded up and the header is added. -/
def maxRequest : ContextKind → Nat
  | .bump => 2 ^ 64 - 32
  | .linear => 2 ^ 64 - 17

/-! ### One call -/

theorem alignMaxWord_of_le (h : sz ≤ kind.maxRequest) :
    alignMaxWord sz = alignMax sz ∧ alignMax sz + kind.headerSize < 2 ^ 64 := by
  have hword : alignMaxWord sz = alignMax sz := by
    rw [alignMaxWord, alignMax, Nat.mod_eq_of_lt]
    cases kind <;> simp only [maxRequest] at h <;> omega
  refine ⟨hword, ?_⟩
  rw [alignMax]
  cases kind <;> simp only [maxRequest, headerSize, sizeofBumpContextHeader] at h ⊢ <;> omega

theorem le_maxRequest_iff :
    sz ≤ kind.maxRequest ↔ sz + 16 < 2 ^ 64 ∧ alignMaxWord sz + kind.headerSize < 2 ^ 64 := by
  constructor
  · intro h
    obtain ⟨hword, hlt⟩ := alignMaxWord_of_le h
    rw [hword]
    refine ⟨?_, hlt⟩
    cases kind <;> simp only [maxRequest] at h <;> omega
  · rintro ⟨hlt, haligned⟩
    rw [alignMaxWord, Nat.mod_eq_of_lt (by omega)] at haligned
    cases kind <;> simp only [maxRequest, headerSize, sizeofBumpContextHeader] at haligned ⊢ <;> omega

/-- An allocation below the end of the context: it fails for lack of room, or the block lies at the mark. -/
theorem alloc_cases (hmark : m.current ≤ m.size.toNat) (hsz : sz ≠ 0) (hmax : sz ≤ kind.maxRequest) :
    kind.alloc build m sz = .ok (m, none)
      ∨ m.current + (alignMax sz + kind.headerSize) ≤ m.size.toNat
        ∧ ∃ m', kind.alloc build m sz = .ok (m', some (m.current + kind.headerSize)) ∧ m'.size = m.size
          ∧ m'.current = m.current + (alignMax sz + kind.headerSize) := by
  obtain ⟨hword, hfits⟩ := alignMaxWord_of_le hmax
  have hsize := m.size.toNat_lt
  cases kind with
  | bump =>
      have halloc := @BumpRegion.alloc_eq build m sz hmark hsz hfits
      by_cases hroom : m.size.toNat < m.current + (alignMax sz + sizeofBumpContextHeader)
      · rw [if_pos hroom] at halloc
        exact .inl halloc
      · rw [if_neg hroom] at halloc
        exact .inr ⟨Nat.not_lt.mp hroom, _, halloc, rfl, rfl⟩
  | linear =>
      have hassert : alignMax sz ≤ 2 ^ 64 - 1 := Nat.le_sub_one_of_lt hfits
      have hleft : (m.size.toNat + 2 ^ 64 - m.current) % 2 ^ 64 = m.size.toNat - m.current := by omega
      have halloc : ContextKind.linear.alloc build m sz =
          if m.size.toNat - m.current < alignMax sz then .ok (m, none)
          else .ok ({ m with current := (m.current + alignMax sz) % 2 ^ 64 }, some m.current) := by
        rw [alloc, BumpRegion.linearAlloc, if_neg hsz, hword]
        dsimp only
        rw [Build.assert_of _ hassert, hleft]
        rfl
      by_cases hroom : m.size.toNat - m.current < alignMax sz
      · rw [if_pos hroom] at halloc
        exact .inl halloc
      · rw [if_neg hroom, Nat.mod_eq_of_lt (by omega)] at halloc
        exact .inr ⟨by rw [headerSize]; omega, _, halloc, rfl, rfl⟩

theorem sizes_of_le (hmark : m.current ≤ m.size.toNat) (hmax : sz ≤ kind.maxRequest) :
    ∀ n ∈ kind.sizes m sz, 0 ≤ n ∧ n < 2 ^ 64 := by
  obtain ⟨hlt, haligned⟩ := le_maxRequest_iff.mp hmax
  have hsize := m.size.toNat_lt
  intro n hn
  rw [sizes] at hn
  split at hn
  · cases hn
  · split at hn
    · simp only [List.mem_append, List.mem_cons, List.not_mem_nil, or_false] at hn
      omega
    · simp only [List.append_nil, List.mem_cons, List.not_mem_nil, or_false] at hn
      omega

/-- A request that is not too large is served at every fill level. -/
theorem alloc_spec {sz : UInt64} (hbase : BumpContext.base build ≤ m.current) (hmark : m.current ≤ m.size.toNat)
    (hmax : sz.toNat ≤ kind.maxRequest) :
    ∃ m' r, kind.step build m (.alloc sz) = .ok (m', r) ∧ BumpContext.base build ≤ m'.current
      ∧ m'.current ≤ m'.size.toNat ∧ ∀ p, r = some p → Holds build m m' sz.toNat p := by
  rw [step]
  by_cases hsz : sz.toNat = 0
  · refine ⟨m, none, ?_, hbase, hmark, nofun⟩
    cases kind
    · exact if_pos hsz
    · exact if_pos hsz
  · rcases @alloc_cases kind build m _ hmark hsz hmax with hfull | ⟨hroom, m', halloc, hsize, hcurrent⟩
    · exact ⟨m, none, hfull, hbase, hmark, nofun⟩
    · have hrecord : sizeofBumpContext build ≤ BumpContext.base build := le_alignMax _
      have hle := le_alignMax sz.toNat
      refine ⟨m', _, halloc, by omega, by rw [hsize]; omega, ?_⟩
      intro p hp
      cases hp
      exact {
        behind_record := by omega
        behind_mark := by omega
        below_mark := by omega
        inside := by omega
      }

theorem le_of_serves {sz : UInt64} (h : kind.Serves build m (.alloc sz)) : sz.toNat ≤ kind.maxRequest := by
  have hsizes := h.2 sz rfl
  by_cases hsz : sz.toNat = 0
  · rw [hsz]
    exact Nat.zero_le _
  · have hfirst := (hsizes ((sz.toNat : Int) + 16) (by simp [sizes, hsz])).2
    have hsecond := (hsizes ((alignMaxWord sz.toNat : Int) + kind.headerSize) (by simp [sizes, hsz])).2
    exact le_maxRequest_iff.mpr ⟨by omega, by omega⟩

/-- A request that is rounded up to 0 gets a block at the mark, which stays where it is. -/
theorem linearAlloc_of_zero (hsz : sz ≠ 0) (hword : alignMaxWord sz = 0) (hcurrent : m.current < 2 ^ 64) :
    m.linearAlloc build sz = .ok (m, some m.current) := by
  rw [BumpRegion.linearAlloc, if_neg hsz, hword]
  dsimp only
  rw [Build.assert_of _ (Nat.zero_le _), Nat.add_zero, Nat.mod_eq_of_lt hcurrent, if_neg (Nat.not_lt_zero _)]
  rfl

/-! ### Runs -/

theorem serves_step {op : ContextOp} (hbase : BumpContext.base build ≤ m.current)
    (hmark : m.current ≤ m.size.toNat) (hroom : BumpContext.base build ≤ m.size.toNat)
    (hop : ∀ sz, op = .alloc sz → sz.toNat ≤ kind.maxRequest) :
    kind.Serves build m op ∧ ∃ m' r, kind.step build m op = .ok (m', r)
      ∧ BumpContext.base build ≤ m'.current ∧ m'.current ≤ m'.size.toNat := by
  cases op with
  | alloc sz =>
      obtain ⟨m', r, hstep, hbase', hmark', hblock⟩ := alloc_spec hbase hmark (hop sz rfl)
      refine ⟨⟨⟨m', r, hstep, hmark', ?_⟩, ?_⟩, m', r, hstep, hbase', hmark'⟩
      · rintro sz' p ⟨⟩ hr
        exact hblock p hr
      · rintro sz' ⟨⟩
        exact sizes_of_le hmark (hop sz rfl)
  | reset =>
      refine ⟨⟨⟨m.reset build, none, rfl, hroom, nofun⟩, nofun⟩, m.reset build, none, rfl, Nat.le_refl _, hroom⟩

theorem along_serves_iff {ops : List ContextOp} (hbase : BumpContext.base build ≤ m.current)
    (hmark : m.current ≤ m.size.toNat) :
    Machine.Along (kind.step build) (kind.Serves build) m ops ↔
      ∀ sz, ContextOp.alloc sz ∈ ops → sz.toNat ≤ kind.maxRequest := by
  induction ops generalizing m with
  | nil => exact iff_of_true (Machine.along_nil _ _) nofun
  | cons op ops ih =>
      by_cases hop : ∀ sz, op = .alloc sz → sz.toNat ≤ kind.maxRequest
      · obtain ⟨hserves, m', r, hstep, hbase', hmark'⟩ := serves_step hbase hmark (hbase.trans hmark) hop
        rw [Machine.along_cons hstep, and_iff_right hserves, ih hbase' hmark']
        constructor
        · intro hrest sz hsz
          rcases List.mem_cons.mp hsz with heq | hsz
          · exact hop sz heq.symm
          · exact hrest sz hsz
        · intro hall sz hsz
          exact hall sz (List.mem_cons_of_mem _ hsz)
      · refine iff_of_false ?_ ?_
        · intro halong
          have hserves := halong [] op ops m [] rfl rfl
          refine hop ?_
          rintro sz rfl
          exact le_of_serves hserves
        · intro hall
          refine hop ?_
          rintro sz rfl
          exact hall sz List.mem_cons_self

/-- **The sizes of a context** are right in a whole run exactly where the context has room for its record and no
request is too large. The run starts behind the creation, or at any mark that calls of `free` and `realloc` may have
left. -/
theorem sized_iff {address size : UInt64} {bytes : Nat → UInt8} {mark : Nat} {ops : List ContextOp}
    (hcreate : kind.create build address size bytes = some m)
    (hmark : mark = m.current ∨ m.current < mark ∧ mark ≤ m.size.toNat) :
    kind.Sized build { m with current := mark } ops ↔
      BumpContext.base build ≤ size.toNat ∧ ∀ sz, ContextOp.alloc sz ∈ ops → sz.toNat ≤ kind.maxRequest := by
  have hm : m = ⟨address, size, BumpContext.base build, bytes⟩ := by
    cases kind
    all_goals
      unfold create BumpRegion.create BumpRegion.linearCreate at hcreate
      dsimp only at hcreate
      split at hcreate
      · cases hcreate
      · exact (Option.some.inj hcreate).symm
  subst hm
  dsimp only at hmark
  have hbase : BumpContext.base build ≤ mark := by omega
  have hroom : mark ≤ size.toNat ↔ BumpContext.base build ≤ size.toNat := by omega
  rw [Sized, ← hroom]
  exact and_congr_right fun hle => along_serves_iff hbase hle

/-- A context of one page at address 65536. -/
def page : BumpRegion := ⟨65536, 4096, BumpContext.base .debug, fun _ => 0⟩

theorem sized_iff_page :
    ContextKind.bump.Sized .debug { page with current := 160 } [.alloc 100, .alloc 5000, .reset, .alloc 1] :=
  (@sized_iff .bump .debug page 65536 4096 (fun _ => 0) 160 [.alloc 100, .alloc 5000, .reset, .alloc 1] rfl
    (.inr (by decide))).mpr (by
    refine ⟨by decide, ?_⟩
    intro sz hsz
    simp only [List.mem_cons, ContextOp.alloc.injEq, reduceCtorEq, List.not_mem_nil, or_false, false_or] at hsz
    rcases hsz with rfl | rfl | rfl <;> decide)

/-- The largest request of all is rounded up to 0 and gets a block without bytes. -/
theorem not_sized_page :
    ContextKind.linear.create .debug 65536 4096 (fun _ => 0) = some page
      ∧ ¬ ContextKind.linear.Sized .debug page [.alloc 18446744073709551615] := by
  refine ⟨rfl, ?_⟩
  rintro ⟨-, halong⟩
  obtain ⟨⟨m', r, hstep, -, hblock⟩, -⟩ := halong [] _ [] page [] rfl rfl
  have hword : (18446744073709551615 : UInt64).toNat = 18446744073709551615 := by decide
  rw [step, hword, alloc, linearAlloc_of_zero (by decide) (by decide) (by decide)] at hstep
  obtain ⟨rfl, rfl⟩ := Prod.mk.inj (Except.ok.inj hstep)
  have hbelow := (hblock 18446744073709551615 112 rfl rfl).below_mark
  exact absurd hbelow (by decide)

end Scroller.ContextKind

import Mathlib.Data.UInt
import Scroller.Bc
import Scroller.Proof.BcTokens

/-!
# The bytecode array behind a reset

While the tokens of the first command are put, the block of the array is the one live block of its context, up to
1024 tokens. Behind the first reset it is never live again: the array keeps its block, the context does not.
-/

namespace Scroller

/-- The block of the array is a live allocation: the context handed it out and did not take it back, it lies with its
header below the mark, has room for the capacity and is disjoint from the other blocks and their headers. -/
structure BcAccess.Live {T : Type} (build : Build) (x : BcAccess T) : Prop where
  handedOut : x.array.block ∈ x.blocks
  room : sizeofArray + sizeofBcNode * x.array.capacity ≤ x.array.block.size
  header : BumpContext.base build + sizeofBumpContextHeader ≤ x.array.block.offs
  mark : x.array.block.offs + x.array.block.size ≤ x.cont.current
  disjoint : ∀ b ∈ x.blocks, b ≠ x.array.block →
    b.offs + b.size + sizeofBumpContextHeader ≤ x.array.block.offs
      ∨ x.array.block.offs + x.array.block.size + sizeofBumpContextHeader ≤ b.offs

/-- The tokens that a call puts. -/
def BcOp.count {T : Type} : BcOp T → Nat
  | .put _ => 1
  | _ => 0

/-- The tokens that the calls of a run put. -/
def BcOp.puts {T : Type} (ops : List (BcOp T)) : Nat := (ops.map count).sum

/-- How many tokens may have been put in front of a call. -/
def BcOp.limit {T : Type} : BcOp T → Nat
  | .reset => 0
  | _ => 1024

namespace BcRun

open Bc

variable {T : Type} {build : Build} {s : BcRun T} {a : DynArray T}

/-- The array fills its block, which is the only one of its context. -/
structure Filled (build : Build) (cont : BumpContext) (blocks : List Block) (a : DynArray T) : Prop where
  region : cont.size = 65536
  size : a.size ≤ a.capacity
  capacity : a.capacity = 128 ∨ a.capacity = 256 ∨ a.capacity = 512 ∨ a.capacity = 1024
  block : a.block = ⟨BumpContext.base build + 16, 32 * a.capacity + 32⟩
  current : cont.current = BumpContext.base build + (32 * a.capacity + 48)
  blocks : blocks = [a.block]

/-- A session that put `n` tokens and was not reset since. -/
inductive Holds (build : Build) : Nat → BcRun T → Prop
  | empty {s : BcRun T} (htokens : s.bc.tokens = none) (hregion : s.bc.cont.size = 65536)
      (hcurrent : s.bc.cont.current = BumpContext.base build) (hblocks : s.blocks = []) : Holds build 0 s
  | filled {s : BcRun T} {a : DynArray T} {n : Nat} (htokens : s.bc.tokens = some a) (hsize : a.size = n + 1)
      (hfilled : Filled build s.bc.cont s.blocks a) : Holds build (n + 1) s
  | stuck {s : BcRun T} {a : DynArray T} (htokens : s.bc.tokens = some a)
      (hblock : a.block = ⟨BumpContext.base build + 16, 32800⟩)
      (hcurrent : s.bc.cont.current = BumpContext.base build) : Holds build 1025 s

theorem holds_init (zero : T) : Holds build 0 (init build zero) := by
  cases build <;> exact .empty rfl rfl rfl rfl

namespace Filled

variable {cont : BumpContext} {blocks : List Block}

theorem placed (h : Filled build cont blocks a) : Placed build cont a := by
  refine ⟨?_, h.size, Or.inl ⟨h.capacity, ?_, Or.inr ?_⟩⟩
  · rw [h.block]
  · rw [h.block]
  · rw [h.block, h.current]
    dsimp only
    omega

theorem live (h : Filled build cont blocks a) : BcAccess.Live build ⟨cont, blocks, a⟩ := by
  have hblock := h.block
  refine ⟨?_, ?_, ?_, ?_, ?_⟩
  · dsimp only
    rw [h.blocks]
    exact List.mem_singleton_self _
  · dsimp only [sizeofArray, sizeofBcNode]
    rw [hblock]
    dsimp only
    omega
  · exact Nat.le_of_eq (by rw [hblock]; rfl)
  · dsimp only
    rw [hblock, h.current]
    dsimp only
    omega
  · dsimp only
    rw [h.blocks]
    intro b hb hne
    exact absurd (List.mem_singleton.mp hb) hne

theorem of_size {n : Nat} (h : Filled build cont blocks a) (hn : n ≤ a.capacity) (items : Nat → T) :
    Filled build cont blocks { a with size := n, items } :=
  ⟨h.region, hn, h.capacity, h.block, h.current, h.blocks⟩

theorem fits (h : Filled build cont blocks a) {n : Nat} (hn : n ≤ a.capacity) :
    a.block.offs + sizeofArray + sizeofBcNode * n ≤ cont.size := by
  have hbase := base_le build
  have hcapacity := h.capacity
  rw [h.block, h.region]
  dsimp only [sizeofArray, sizeofBcNode]
  omega

/-- The array takes one token more, in a block twice as large if it is full. -/
theorem raise (h : Filled build cont blocks a) (hroom : a.size < 1024) :
    ∃ cont' a', a.raise build cont sizeofBcNode = .ok (cont', { a' with size := a.size + 1 }, true)
      ∧ a'.items = a.items ∧ a.size + 1 ≤ a'.capacity ∧ Filled build cont' (raisedBlocks blocks a a') a' := by
  by_cases hsize : a.size = a.capacity
  · have hcapacity := h.capacity
    have hbase := base_le build
    have hfresh : ¬ (build = .debug ∧ cont.current = BumpContext.base build) := by
      rintro ⟨-, hcurrent⟩
      rw [h.current] at hcurrent
      omega
    have hblock : a.block.size = 32 * a.capacity + 32 := by rw [h.block]
    have hraise := raise_full build cont hsize (by omega)
    rw [realloc_grow hfresh h.placed h.region (by omega), if_neg (by omega)] at hraise
    refine ⟨_, ⟨⟨BumpContext.base build + 16, 32 * (a.capacity * 2) + 32⟩, a.size, a.capacity * 2, a.items⟩, hraise,
      rfl, ?_, ⟨h.region, ?_, ?_, rfl, rfl, ?_⟩⟩
    · dsimp only
      omega
    · dsimp only
      omega
    · dsimp only
      omega
    · unfold raisedBlocks
      rw [if_neg ?_, h.blocks, List.erase_cons_head]
      intro heq
      have := congrArg Block.size heq
      dsimp only at this
      omega
  · refine ⟨cont, a, DynArray.raise_room hsize _, rfl, Nat.lt_of_le_of_ne h.size hsize, ?_⟩
    unfold raisedBlocks
    rw [if_pos rfl]
    exact h

/-- Behind 1024 tokens the array cannot grow, but the attempt rewinds the context. -/
theorem raise_stuck (h : Filled build cont blocks a) (hfull : a.size = 1024) :
    a.raise build cont sizeofBcNode
        = .ok ({ cont with current := BumpContext.base build }, { a with capacity := a.capacity * 2 }, false)
      ∧ a.block = ⟨BumpContext.base build + 16, 32800⟩ := by
  have hcapacity := h.capacity
  have hsize := h.size
  have heq : a.capacity = 1024 := by omega
  have hfresh : ¬ (build = .debug ∧ cont.current = BumpContext.base build) := by
    rintro ⟨-, hcurrent⟩
    rw [h.current] at hcurrent
    omega
  have hblock : a.block.size = 32 * a.capacity + 32 := by rw [h.block]
  have hraise := raise_full build cont (hfull.trans heq.symm) (by omega)
  rw [realloc_grow hfresh h.placed h.region (by omega), if_pos (by omega)] at hraise
  refine ⟨hraise, ?_⟩
  rw [h.block, heq]

end Filled

/-! ### One call -/

theorem opened_empty (htokens : s.bc.tokens = none) (hregion : s.bc.cont.size = 65536)
    (hcurrent : s.bc.cont.current = BumpContext.base build) (hblocks : s.blocks = []) :
    ∃ cont a, s.opened = (cont, [a.block], some a) ∧ a.size = 0 ∧ Filled build cont [a.block] a := by
  have hbase := base_le build
  have halloc : s.bc.cont.alloc (sizeofArray + sizeofBcNode * arrayDefaultCapacity)
      = ({ s.bc.cont with current := BumpContext.base build + 4144 }, some ⟨BumpContext.base build + 16, 4128⟩) := by
    have hsz : alignMax (sizeofArray + sizeofBcNode * arrayDefaultCapacity) = 4128 := rfl
    have hheader : sizeofBumpContextHeader = 16 := rfl
    rw [BumpContext.alloc_room (by decide) (by omega), hsz, hheader, hcurrent]
  refine ⟨{ s.bc.cont with current := BumpContext.base build + 4144 },
    ⟨⟨BumpContext.base build + 16, 4128⟩, 0, 128, fun _ => s.bc.zero⟩, ?_, rfl, ?_⟩
  · unfold opened DynArray.create
    rw [htokens, halloc, hblocks]
    rfl
  · exact ⟨hregion, Nat.zero_le _, Or.inl rfl, rfl, rfl, rfl⟩

theorem opened_filled (htokens : s.bc.tokens = some a) : s.opened = (s.bc.cont, s.blocks, some a) := by
  unfold opened
  rw [htokens]

/-- `bc_put` raises the array that was opened. -/
theorem put_opened {cont : BumpContext} {blocks : List Block} (node : T)
    (hopened : s.opened = (cont, blocks, some a)) :
    s.bc.put build node = (DynArray.put build cont (fun _ => s.bc.zero) sizeofBcNode (some a) node >>= fun r =>
      return { s.bc with tokens := r.2, cont := r.1 }) := by
  unfold opened at hopened
  unfold put
  cases htokens : s.bc.tokens with
  | some a₁ =>
      rw [htokens] at hopened
      cases hopened
      rfl
  | none =>
      rw [htokens] at hopened
      rw [DynArray.put_none_eq]
      dsimp only at hopened
      generalize DynArray.create s.bc.cont (fun _ => s.bc.zero) sizeofBcNode arrayDefaultCapacity = created at *
      obtain ⟨cont₁, a₁⟩ := created
      cases a₁ with
      | none => cases hopened
      | some a₁ =>
          cases hopened
          rfl

theorem put_of_filled {cont : BumpContext} {blocks : List Block} (node : T)
    (hopened : s.opened = (cont, blocks, some a)) (hfilled : Filled build cont blocks a) (hroom : a.size < 1024) :
    ∃ s', s.step build (.put node) = .ok (s', ()) ∧ Holds build (a.size + 1) s'
      ∧ ∀ x ∈ s.accesses build (.put node), x.Live build := by
  obtain ⟨cont', a', hraise, hitems, hle, hraised⟩ := hfilled.raise hroom
  have hput := @put_opened T build s a cont blocks node hopened
  rw [DynArray.put_raised a' hraise hitems (hraised.fits hle)] at hput
  obtain ⟨bc', htokens', hcont, hput'⟩ : ∃ bc' : Bc T,
      bc'.tokens = some { a' with size := a.size + 1, items := Function.update a.items a.size node }
        ∧ bc'.cont = cont' ∧ s.bc.put build node = .ok bc' :=
    ⟨_, rfl, rfl, hput⟩
  refine ⟨⟨bc', raisedBlocks blocks a a'⟩, ?_, ?_, ?_⟩
  · rw [step, hput']
    show Except.ok _ = _
    unfold putBlocks
    rw [hopened, htokens']
    rfl
  · refine .filled htokens' rfl ?_
    dsimp only
    rw [hcont]
    exact hraised.of_size hle _
  · unfold accesses
    rw [hopened]
    dsimp only
    rw [hraise]
    intro x hx
    rcases List.mem_cons.mp hx with rfl | hx
    · exact hfilled.live
    · rw [List.mem_singleton.mp hx]
      exact (hraised.of_size hle a'.items).live

theorem put_of_full (node : T) (htokens : s.bc.tokens = some a) (hfilled : Filled build s.bc.cont s.blocks a)
    (hfull : a.size = 1024) :
    ∃ s', s.step build (.put node) = .ok (s', ()) ∧ Holds build 1025 s'
      ∧ ∀ x ∈ s.accesses build (.put node), x.Live build := by
  have hopened := opened_filled htokens
  obtain ⟨hraise, hblock⟩ := hfilled.raise_stuck hfull
  have hput := @put_opened T build s a _ _ node hopened
  rw [DynArray.put_dropped hraise] at hput
  obtain ⟨bc', htokens', hcurrent, hput'⟩ : ∃ bc' : Bc T, bc'.tokens = some { a with capacity := a.capacity * 2 }
      ∧ bc'.cont.current = BumpContext.base build ∧ s.bc.put build node = .ok bc' :=
    ⟨_, rfl, rfl, hput⟩
  refine ⟨⟨bc', s.putBlocks bc'⟩, ?_, .stuck htokens' hblock hcurrent, ?_⟩
  · rw [step, hput']
    rfl
  · unfold accesses
    rw [hopened]
    dsimp only
    rw [hraise]
    intro x hx
    rw [List.mem_singleton.mp hx]
    exact hfilled.live

section Calls

variable {n : Nat} {op : BcOp T}

theorem Holds.step (h : Holds build n s) (hlimit : n ≤ op.limit) :
    ∃ s', s.step build op = .ok (s', ()) ∧ Holds build (n + op.count) s' ∧ ∀ x ∈ s.accesses build op, x.Live build := by
  cases op with
  | put node =>
      cases h with
      | empty htokens hregion hcurrent hblocks =>
          obtain ⟨cont, a, hopened, hsize, hfilled⟩ := opened_empty htokens hregion hcurrent hblocks
          have hput := put_of_filled node hopened hfilled (by rw [hsize]; decide)
          rw [hsize] at hput
          exact hput
      | filled htokens hsize hfilled =>
          rw [← hsize] at hlimit ⊢
          rcases Nat.lt_or_eq_of_le hlimit with hlt | heq
          · exact put_of_filled node (opened_filled htokens) hfilled hlt
          · have hput := put_of_full node htokens hfilled heq
            rw [heq]
            exact hput
      | stuck htokens hblock hcurrent => exact absurd hlimit (Nat.not_succ_le_self _)
  | use items =>
      cases h with
      | empty htokens hregion hcurrent hblocks =>
          refine ⟨_, rfl, .empty (by rw [htokens]; rfl) hregion hcurrent hblocks, ?_⟩
          unfold accesses
          rw [htokens]
          rintro x ⟨⟩
      | @filled _ a _ htokens hsize hfilled =>
          refine ⟨_, rfl, ?_, ?_⟩
          · exact .filled (a := { a with items }) (by rw [htokens]; rfl) hsize (hfilled.of_size hfilled.size items)
          · unfold accesses
            rw [htokens]
            intro x hx
            rw [List.mem_singleton.mp hx]
            exact hfilled.live
      | stuck htokens hblock hcurrent => exact absurd hlimit (Nat.not_succ_le_self _)
  | reset =>
      cases h with
      | empty htokens hregion hcurrent hblocks =>
          refine ⟨_, rfl, .empty (by unfold Bc.reset; rw [htokens]; rfl) hregion rfl rfl, ?_⟩
          unfold accesses
          rw [htokens]
          rintro x ⟨⟩
      | filled => exact absurd hlimit (Nat.not_succ_le_zero _)
      | stuck htokens hblock hcurrent => exact absurd hlimit (Nat.not_succ_le_zero _)

theorem not_live_of_current {a : DynArray T} {cont : BumpContext} (blocks : List Block)
    (hblock : a.block = ⟨BumpContext.base build + 16, 32800⟩) (hcurrent : cont.current = BumpContext.base build) :
    ¬ BcAccess.Live build ⟨cont, blocks, a⟩ := by
  intro hlive
  have hmark := hlive.mark
  dsimp only at hmark
  rw [hblock, hcurrent] at hmark
  dsimp only at hmark
  omega

theorem Holds.not_live (h : Holds build n s) (hlimit : op.limit < n) :
    ¬ ∀ x ∈ s.accesses build op, x.Live build := by
  intro hlive
  cases op with
  | reset =>
      have hreset : ∀ a, s.bc.tokens ≠ some a := by
        intro a htokens
        have hx := hlive ⟨s.bc.cont.reset build, [], a⟩ (by
          unfold accesses
          rw [htokens]
          exact List.mem_singleton_self _)
        cases hx.handedOut
      cases h with
      | empty => exact absurd hlimit (Nat.not_lt_zero _)
      | filled htokens => exact hreset _ htokens
      | stuck htokens => exact hreset _ htokens
  | put node =>
      cases h with
      | empty => exact absurd hlimit (Nat.not_lt_zero _)
      | filled htokens hsize hfilled =>
          have hle := hfilled.size
          have hcapacity := hfilled.capacity
          dsimp only [BcOp.limit] at hlimit
          omega
      | stuck htokens hblock hcurrent =>
          refine not_live_of_current s.blocks hblock hcurrent (hlive _ ?_)
          unfold accesses
          rw [opened_filled htokens]
          exact List.mem_cons_self
  | use items =>
      cases h with
      | empty => exact absurd hlimit (Nat.not_lt_zero _)
      | filled htokens hsize hfilled =>
          have hle := hfilled.size
          have hcapacity := hfilled.capacity
          dsimp only [BcOp.limit] at hlimit
          omega
      | stuck htokens hblock hcurrent =>
          refine not_live_of_current s.blocks hblock hcurrent (hlive _ ?_)
          unfold accesses
          rw [htokens]
          exact List.mem_singleton_self _

/-! ### Runs -/

/-- Along a run the block is live as long as no call finds too many tokens. -/
theorem Holds.along_iff (h : Holds build n s) (ops : List (BcOp T)) :
    Machine.Along (BcRun.step build) (fun s op => ∀ x ∈ s.accesses build op, x.Live build) s ops ↔
      ∀ before op after, ops = before ++ op :: after → n + BcOp.puts before ≤ op.limit := by
  induction ops generalizing n s with
  | nil =>
      refine iff_of_true (Machine.along_nil _ _) ?_
      intro before op after hsplit
      cases before with
      | nil => cases hsplit
      | cons op' before => cases hsplit
  | cons op ops ih =>
      by_cases hlimit : n ≤ op.limit
      · obtain ⟨s', hstep, hnext, hlive⟩ := h.step hlimit
        rw [Machine.along_cons hstep, ih hnext]
        constructor
        · rintro ⟨-, hrest⟩ before op' after hsplit
          cases before with
          | nil =>
              cases hsplit
              exact hlimit
          | cons op₁ before =>
              cases hsplit
              have hle := hrest before op' after rfl
              rwa [Nat.add_assoc] at hle
        · intro hall
          refine ⟨hlive, ?_⟩
          intro before op' after hsplit
          rw [Nat.add_assoc]
          exact hall (op :: before) op' after (by rw [hsplit]; rfl)
      · refine iff_of_false ?_ ?_
        · intro halong
          exact h.not_live (Nat.lt_of_not_le hlimit) (halong [] op ops s [] rfl rfl)
        · intro hall
          exact hlimit (hall [] op ops rfl)

end Calls

/-- Every use of the array finds its block live exactly when no `cmd_reset` comes behind a token and nothing behind
1025 tokens. -/
theorem live_iff (build : Build) (zero : T) (ops : List (BcOp T)) :
    Machine.Along (BcRun.step build) (fun s op => ∀ x ∈ s.accesses build op, x.Live build) (init build zero) ops ↔
      ∀ before op after, ops = before ++ op :: after → BcOp.puts before ≤ op.limit := by
  rw [(holds_init zero).along_iff ops]
  simp only [Nat.zero_add]

/-- A command of one token, and its reset. -/
theorem not_live_behind_token :
    ¬ Machine.Along (BcRun.step .release) (fun s op => ∀ x ∈ s.accesses .release op, x.Live .release) (init .release 0)
      [.put 1, .reset] := by
  intro halong
  have hone := halong [.put 1] .reset [] _ [(.put 1, ())] rfl rfl
    ⟨⟨65536, 96⟩, [], ⟨⟨112, 4128⟩, 1, 128, Function.update (fun _ => 0) 0 1⟩⟩ (List.mem_singleton_self _)
  cases hone.handedOut

end BcRun

end Scroller

import Scroller.Proof.IhashIteration
import Scroller.Proof.IhashRun

/-!
# The representation of the hash table

After every run the pool is divided between the chains of the buckets and the freelist, and every key stands once
in the table, in its bucket. So the loops of the table come to their ends inside the pool.
-/

namespace Scroller.Ihash

open IndexChain

variable {V : Type}

/-- The chains of the buckets and the freelist of a table. -/
structure Represented (hash : Ihash V) (chains : Nat → List Nat) (free : List Nat) : Prop where
  chain : ∀ b < hash.bucketsz, IsChain hash.link (hash.node (.bucket b)).next (chains b)
  freelist : IsChain hash.link hash.chainHead free
  acyclic : (∀ b < hash.bucketsz, (chains b).Nodup) ∧ free.Nodup
  pool : ((List.range hash.bucketsz).flatMap chains ++ free).Perm (List.range hash.chainsz)
  empty : ∀ b < hash.bucketsz, (hash.node (.bucket b)).key = ihashUndef → chains b = []
  distinct : ((hash.slotsFrom chains 0 hash.bucketsz).map fun e => (hash.node e).key).Nodup
  placed : ∀ b < hash.bucketsz, ∀ e ∈ hash.slots chains b, hash.idx (hash.node e).key = b

/-- No loop of the table leaves the pool or goes on for ever, whatever key it looks for. -/
structure LoopsEnd (hash : Ihash V) : Prop where
  lookup : ∀ key, ∃ e, hash.getFn key = .ok e
  insert : ∀ key, ∃ after, hash.touchFn key = .ok after
  erase : ∀ key, ∃ after, hash.eraseFn key = .ok after

namespace Layout

variable {hash : Ihash V} {cs : Nat → List Nat} {fl : List Nat}

theorem represented (h : hash.Layout cs fl) : hash.Represented cs fl where
  chain := h.chain
  freelist := h.free
  acyclic := ⟨fun b hb => (h.chain b hb).nodup, h.free.nodup⟩
  pool := h.pool
  empty := h.empty
  distinct := by
    rw [map_key_slotsFrom hash cs fl]
    exact BucketMap.nodup_keys h.wf
  placed := fun b hb e he => (h.keyed b hb e he).2

/-- The end of a chain takes the head of the freelist, which is in the pool. -/
theorem appendNode_ok (h : hash.Layout cs fl) (key : Int64) {e : Slot}
    (he : ∀ i ∈ fl, e ≠ .chain i) : ∃ after, hash.appendNode key e = .ok after := by
  cases hhead : hash.chainHead with
  | none =>
      rw [appendNode, hhead]
      exact ⟨_, rfl⟩
  | some new =>
      have hfree := h.free
      rw [hhead] at hfree
      obtain ⟨rest, rfl, -⟩ := isChain_some hfree
      obtain ⟨hash', hok, -⟩ := appendNode_eq key hhead (h.free_lt List.mem_cons_self)
        (he new List.mem_cons_self)
      exact ⟨_, hok⟩

theorem touchFn_ok (h : hash.Layout cs fl) (key : Int64) : ∃ after, hash.touchFn key = .ok after := by
  rw [h.touchFn_eq key]
  split
  · exact ⟨_, rfl⟩
  · split
    · exact ⟨_, rfl⟩
    · apply h.appendNode_ok key
      rintro i hi heq
      have hlast : ((cs (hash.idx key)).map Slot.chain).getLastD (.bucket (hash.idx key))
          ∈ .bucket (hash.idx key) :: (cs (hash.idx key)).map Slot.chain := List.getLastD_mem_cons
      rw [heq] at hlast
      rcases List.mem_cons.mp hlast with heq | hmem
      · cases heq
      · obtain ⟨j, hj, heq⟩ := List.mem_map.mp hmem
        cases heq
        exact h.not_mem_free (h.idx_lt key) hj hi

theorem eraseBucket_ok (h : hash.Layout cs fl) {b : Nat} (hb : b < hash.bucketsz) :
    ∃ after, hash.eraseBucket (.bucket b) = .ok after := by
  have hbounds : hash.InBounds (.bucket b) := hb
  have hchain := h.chain b hb
  rw [eraseBucket, load_eq hbounds]
  dsimp only [bind, Except.bind]
  cases hnext : (hash.node (.bucket b)).next with
  | none => exact ⟨_, rfl⟩
  | some next =>
      rw [hnext] at hchain
      obtain ⟨rest, hrest, -⟩ := isChain_some hchain
      have hlt : next < hash.chainsz := h.chain_lt hb (hrest ▸ List.mem_cons_self)
      have hfirst : hash.InBounds (.chain next) := hlt
      dsimp only
      rw [load_eq hfirst]
      exact ⟨_, rfl⟩

theorem eraseFn_ok (h : hash.Layout cs fl) (key : Int64) : ∃ after, hash.eraseFn key = .ok after := by
  have hb := h.idx_lt key
  rw [eraseFn, load_eq (h.inBounds_bucket key)]
  dsimp only [bind, Except.bind]
  split
  · exact ⟨_, rfl⟩
  · split
    · obtain ⟨after, hafter⟩ := h.eraseBucket_ok hb
      rw [hafter]
      exact ⟨_, rfl⟩
    · rcases eraseLoop_eq key (h.length_chain_le hb) (fun i hi => h.chain_lt hb hi) (h.chain _ hb) rfl with
        ⟨-, heq⟩ | ⟨left, cur, right, -, -, heq⟩
      · exact ⟨_, heq⟩
      · exact ⟨_, heq⟩

theorem loopsEnd (h : hash.Layout cs fl) : hash.LoopsEnd where
  lookup := fun key => ⟨_, h.getFn_eq key⟩
  insert := h.touchFn_ok
  erase := h.eraseFn_ok

end Layout

/-- **The representation invariant.** Every run of valid calls comes to its end, and in the state behind it the pool
is divided, the keys are in their places and the loops end. -/
theorem run_represented {buckets chains : Nat → Node V} {bucketsz chainsz : Nat} {hashFn : Option HashFn}
    {hash₀ : Ihash V} (hinit : initFn buckets chains bucketsz chainsz hashFn = some hash₀) (ops : List (Op V))
    (hops : ∀ op ∈ ops, op.Valid) :
    ∃ hash hist, Machine.exec step hash₀ ops = .ok (hash, hist)
      ∧ (∃ cs fl, hash.Represented cs fl) ∧ hash.LoopsEnd := by
  obtain ⟨hash, hist, hexec, m, ⟨cs, fl, hlayout, -⟩, -⟩ := simulates_run hinit hops
  exact ⟨hash, hist, hexec, ⟨cs, fl, hlayout.represented⟩, hlayout.loopsEnd⟩

/-- A table of one bucket and two pool nodes. -/
def smallTable : Ihash Nat :=
  clear ⟨1, 2, none, ihashDefaultHashFn, fun _ => ⟨0, 0, none⟩, fun _ => ⟨0, 0, none⟩⟩ none

/-- The first key of a chain of three is erased. -/
theorem run_represented_shift :
    ∃ hash hist, Machine.exec step smallTable [.touch 5, .touch 6, .touch 7, .erase 5] = .ok (hash, hist)
      ∧ (∃ cs fl, hash.Represented cs fl) ∧ hash.LoopsEnd :=
  @run_represented _ (fun _ => ⟨0, 0, none⟩) (fun _ => ⟨0, 0, none⟩) 1 2 none _ rfl
    [.touch 5, .touch 6, .touch 7, .erase 5] (by
      intro op hop
      simp only [List.mem_cons, List.not_mem_nil, or_false] at hop
      rcases hop with rfl | rfl | rfl | rfl <;> decide)

/-- The reserved key in the middle of a chain moves into the bucket, which then looks empty in front of the rest. -/
theorem reserved_key_not_represented :
    ∃ hash hist, Machine.exec step smallTable [.touch 5, .touch ihashUndef, .touch 6, .erase 5] = .ok (hash, hist)
      ∧ ∀ cs fl, ¬ hash.Represented cs fl := by
  refine ⟨_, _, rfl, ?_⟩
  intro cs fl h
  have hempty : cs 0 = [] := h.empty 0 (by decide) (by decide)
  have hchain := h.chain 0 (by decide)
  rw [hempty] at hchain
  cases hchain

end Scroller.Ihash

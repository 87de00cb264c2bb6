import Scroller.Lib.Deque
import Scroller.Lib.Machine
import Scroller.Proof.Ilist2Layout

/-!
# The list is a deque

Every run of the operations of `ilist2.c` on a new list is a run of a bounded deque with move.
-/

namespace Scroller.Ilist2

open IndexChain

variable {V : Type} {build : Build} {list : Ilist2 V} {n : Nat} {l : List (Nat × V)}

/-- A call; `write` is what clients do with the node that a touch returned. -/
def step (build : Build) (list : Ilist2 V) : Deque.Op V → Except Fault (Ilist2 V × Deque.Answer V)
  | .touchBack => do
      let (list, idx) ← list.touchBack
      return (list, .touched idx)
  | .touchFront => do
      let (list, idx) ← list.touchFront
      return (list, .touched idx)
  | .popBack => do
      let (list, v) ← list.popBack
      return (list, .popped v)
  | .popFront => do
      let (list, v) ← list.popFront
      return (list, .popped v)
  | .moveBack idx => do return (← moveBackByIdx build list (some idx), .done)
  | .moveFront idx => do return (← moveFrontByIdx build list (some idx), .done)
  | .write idx v => do return (← list.setData idx v, .done)
  | .clear => return (list.clear, .done)

/-- The list reads as the nodes `l`, forward and backward, and the other slots are free. -/
structure Represents (list : Ilist2 V) (n : Nat) (l : List (Nat × V)) : Prop where
  listsz : list.listsz = n
  layout : ∃ fl, list.Layout (l.map Prod.fst) fl
  data : ∀ x ∈ l, list.values x.1 = x.2

theorem represents_initFn (nodes : Nat → Node V) (n : Nat) : (initFn nodes n).Represents n [] where
  listsz := rfl
  layout := ⟨_, layout_clear _⟩
  data := nofun

namespace Represents

theorem full_iff {fl : List Nat} (h : list.Represents n l) (hlayout : list.Layout (l.map Prod.fst) fl) :
    fl = [] ↔ l.length = n := by
  have hlen := hlayout.length_add
  rw [List.length_map, h.listsz] at hlen
  rw [← List.length_eq_zero_iff]
  omega

/-- A touch of a list that has room for the node that is free. -/
theorem touched {list' : Ilist2 V} {new : Nat} {fl : List Nat} (h : list.Represents n l)
    (hlayout : list.Layout (l.map Prod.fst) (new :: fl))
    (hvalues : list'.values = list.values) (hsz : list'.listsz = list.listsz) :
    l.length < n ∧ new < n ∧ new ∉ l.map Prod.fst ∧ list'.listsz = n
      ∧ ∀ x ∈ (new, list.values new) :: l, list'.values x.1 = x.2 := by
  have hlen := hlayout.length_add
  rw [List.length_map, h.listsz, List.length_cons] at hlen
  have hnew := hlayout.lt_of_mem_free (i := new) (by simp)
  rw [h.listsz] at hnew
  refine ⟨by omega, hnew, fun hmem => hlayout.not_mem_free hmem (by simp), hsz.trans h.listsz, ?_⟩
  intro x hx
  rw [hvalues]
  rcases List.mem_cons.mp hx with rfl | hx
  · rfl
  · exact h.data x hx

theorem step_refines (h : list.Represents n l) {op : Deque.Op V} (hop : op.Allowed l) :
    ∃ list' a l', step build list op = .ok (list', a) ∧ Deque.Step n l op a l'
      ∧ list'.Represents n l' := by
  obtain ⟨fl, hlayout⟩ := h.layout
  have hkeep : ∀ {list' : Ilist2 V} {l' : List (Nat × V)}, list'.values = list.values →
      (∀ x ∈ l', x ∈ l) → ∀ x ∈ l', list'.values x.1 = x.2 := by
    intro list' l' hvalues hsub x hx
    rw [hvalues]
    exact h.data x (hsub x hx)
  cases op with
  | touchBack =>
      cases fl with
      | nil =>
          have hhead : list.freelistHead = none := hlayout.free
          have htouch : list.touchBack = .ok (list, none) := by
            rw [Ilist2.touchBack, hhead]
            rfl
          refine ⟨list, .touched none, l, ?_, .touchBackFull ((h.full_iff hlayout).mp rfl), h⟩
          rw [step, htouch]
          rfl
      | cons new fl =>
          obtain ⟨list', htouch, hlayout', hvalues, hsz⟩ := hlayout.touchBack
          obtain ⟨hroom, hnew, hfree, hn, hdata⟩ := h.touched hlayout hvalues hsz
          refine ⟨list', _, _, ?_, .touchBack (list.values new) hroom hnew hfree, hn, ⟨fl, ?_⟩, ?_⟩
          · rw [step, htouch]
            rfl
          · rwa [List.map_append]
          · intro x hx
            exact hdata x (by simpa [or_comm] using hx)
  | touchFront =>
      cases fl with
      | nil =>
          have hhead : list.freelistHead = none := hlayout.free
          have htouch : list.touchFront = .ok (list, none) := by
            rw [Ilist2.touchFront, hhead]
            rfl
          refine ⟨list, .touched none, l, ?_, .touchFrontFull ((h.full_iff hlayout).mp rfl), h⟩
          rw [step, htouch]
          rfl
      | cons new fl =>
          obtain ⟨list', htouch, hlayout', hvalues, hsz⟩ := hlayout.touchFront
          obtain ⟨hroom, hnew, hfree, hn, hdata⟩ := h.touched hlayout hvalues hsz
          refine ⟨list', _, _, ?_, .touchFront (list.values new) hroom hnew hfree, hn, ⟨fl, hlayout'⟩,
            hdata⟩
          rw [step, htouch]
          rfl
  | popBack =>
      rcases List.eq_nil_or_concat l with rfl | ⟨l, ⟨idx, v⟩, rfl⟩
      · exact (hop rfl).elim
      rw [List.concat_eq_append] at *
      rw [List.map_append, List.map_singleton] at hlayout
      obtain ⟨list', hpop, hlayout', hvalues, hsz⟩ := hlayout.popBack
      have hv : list.values idx = v := h.data (idx, v) (by simp)
      refine ⟨list', .popped v, l, ?_, .popBack, hsz.trans h.listsz, ⟨_, hlayout'⟩,
        hkeep hvalues (by simp +contextual)⟩
      rw [step, hpop, hv]
      rfl
  | popFront =>
      cases l with
      | nil => exact (hop rfl).elim
      | cons x l =>
          obtain ⟨list', hpop, hlayout', hvalues, hsz⟩ := hlayout.popFront
          have hv : list.values x.1 = x.2 := h.data x (by simp)
          refine ⟨list', .popped x.2, l, ?_, .popFront, hsz.trans h.listsz, ⟨_, hlayout'⟩,
            hkeep hvalues (by simp +contextual)⟩
          rw [step, hpop, hv]
          rfl
  | moveBack idx =>
      obtain ⟨left, v, right, rfl⟩ := Deque.exists_split hop
      rw [List.map_append, List.map_cons] at hlayout
      obtain ⟨list', hmove, hlayout', hvalues, hsz⟩ := hlayout.moveBackByIdx build
      refine ⟨list', .done, _, ?_, .moveBack, hsz.trans h.listsz, ⟨fl, ?_⟩,
        hkeep hvalues fun x hx => ?_⟩
      · rw [step, hmove]
        rfl
      · rwa [List.map_append, List.map_append]
      · simp only [List.mem_append, List.mem_cons, List.not_mem_nil, or_false] at hx ⊢
        tauto
  | moveFront idx =>
      obtain ⟨left, v, right, rfl⟩ := Deque.exists_split hop
      rw [List.map_append, List.map_cons] at hlayout
      obtain ⟨list', hmove, hlayout', hvalues, hsz⟩ := hlayout.moveFrontByIdx build
      refine ⟨list', .done, _, ?_, .moveFront, hsz.trans h.listsz, ⟨fl, ?_⟩,
        hkeep hvalues fun x hx => ?_⟩
      · rw [step, hmove]
        rfl
      · rwa [List.map_cons, List.map_append]
      · simp only [List.mem_append, List.mem_cons] at hx ⊢
        tauto
  | write idx v =>
      obtain ⟨left, old, right, rfl⟩ := Deque.exists_split hop
      obtain ⟨list', hset, hlayout', hvalues, hsz⟩ := hlayout.setData v hop
      refine ⟨list', .done, _, ?_, .write v, hsz.trans h.listsz, ⟨fl, ?_⟩, fun x hx => ?_⟩
      · rw [step, hset]
        rfl
      · rw [List.map_append, List.map_cons] at hlayout' ⊢
        exact hlayout'
      · have hdup := (List.nodup_append.mp hlayout.nodup).1
        rw [List.map_append, List.map_cons, List.nodup_append, List.nodup_cons] at hdup
        rw [hvalues]
        rcases List.mem_append.mp hx with hleft | hright
        · rw [Function.update_of_ne (hdup.2.2 x.1 (List.mem_map_of_mem hleft) idx (by simp))]
          exact h.data x (by simp [hleft])
        · rcases List.mem_cons.mp hright with rfl | hright
          · exact Function.update_self _ _ _
          · have hne : x.1 ≠ idx := by
              intro heq
              have hmem : x.1 ∈ right.map Prod.fst := List.mem_map_of_mem hright
              rw [heq] at hmem
              exact hdup.2.1.1 hmem
            rw [Function.update_of_ne hne]
            exact h.data x (by simp [hright])
  | clear =>
      refine ⟨list.clear, .done, [], rfl, .clear, h.listsz, ⟨_, layout_clear list⟩, ?_⟩
      intro x hx
      cases hx

end Represents

/-- **The list refines a bounded deque with move.** -/
theorem runs_as_deque (nodes : Nat → Node V) {ops : List (Deque.Op V)}
    (hops : Machine.Along (step build) (fun list op => ∀ l, list.Represents n l → op.Allowed l)
      (initFn nodes n) ops) :
    ∃ list' hist l, Machine.exec (step build) (initFn nodes n) ops = .ok (list', hist)
      ∧ Machine.Follows (Deque.Step n) [] hist l ∧ list'.Represents n l := by
  apply Machine.exec_follows (fun list l => list.Represents n l) _ _ (represents_initFn nodes n) hops
  intro list l op hrep hop
  exact hrep.step_refines (hop l hrep)

theorem Represents.indices {list : Ilist2 V} {l : List (Nat × V)} {idxs : List Nat} (h : list.Represents n l)
    (hchain : IsChain list.nexts list.frontIdx idxs) : l.map Prod.fst = idxs := by
  obtain ⟨fl, hlayout⟩ := h.layout
  exact hlayout.fwd.unique hchain

/-- Three nodes: the last comes to the front, its value is written, and the first two are popped from the back. -/
theorem runs_as_deque_moves :
    ∃ (list' : Ilist2 Nat) (hist : List (Deque.Op Nat × Deque.Answer Nat)) (l : List (Nat × Nat)),
      Machine.exec (step .debug) (initFn (fun _ => ⟨7, none, none⟩) 3)
          [.touchBack, .touchBack, .touchBack, .moveFront 2, .write 2 9, .popBack, .popFront] = .ok (list', hist)
        ∧ Machine.Follows (Deque.Step 3) [] hist l ∧ list'.Represents 3 l := by
  apply runs_as_deque
  have hstep {s s' : Ilist2 Nat} {op : Deque.Op Nat} {ops : List (Deque.Op Nat)} {a : Deque.Answer Nat}
      (h : step .debug s op = .ok (s', a)) :
      Machine.Along (step .debug) (fun list op => ∀ l, list.Represents 3 l → op.Allowed l) s (op :: ops) ↔
        (∀ l, s.Represents 3 l → op.Allowed l)
          ∧ Machine.Along (step .debug) (fun list op => ∀ l, list.Represents 3 l → op.Allowed l) s' ops :=
    Machine.along_cons h
  have hidx {s : Ilist2 Nat} (idxs : List Nat) (hchain : IsChain s.nexts s.frontIdx idxs) (idx : Nat)
      (hmem : idx ∈ idxs) (l : List (Nat × Nat)) (h : s.Represents 3 l) : idx ∈ l.map Prod.fst :=
    h.indices hchain ▸ hmem
  have hne {s : Ilist2 Nat} (idx : Nat) (hfront : s.frontIdx = some idx) (l : List (Nat × Nat))
      (h : s.Represents 3 l) : l ≠ [] := by
    rintro rfl
    obtain ⟨fl, hlayout⟩ := h.layout
    have hnone : s.frontIdx = none := hlayout.fwd
    rw [hfront] at hnone
    cases hnone
  refine (hstep rfl).mpr ⟨fun _ _ => trivial, ?_⟩
  refine (hstep rfl).mpr ⟨fun _ _ => trivial, ?_⟩
  refine (hstep rfl).mpr ⟨fun _ _ => trivial, ?_⟩
  refine (hstep rfl).mpr ⟨hidx [0, 1, 2] ?_ 2 (by decide), ?_⟩
  · exact ⟨rfl, rfl, rfl, rfl⟩
  refine (hstep rfl).mpr ⟨hidx [2, 0, 1] ?_ 2 (by decide), ?_⟩
  · exact ⟨rfl, rfl, rfl, rfl⟩
  refine (hstep rfl).mpr ⟨hne 2 ?_, ?_⟩
  · rfl
  refine (hstep rfl).mpr ⟨hne 2 ?_, Machine.along_nil _ _⟩
  rfl

end Scroller.Ilist2

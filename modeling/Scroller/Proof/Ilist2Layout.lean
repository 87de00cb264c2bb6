import Scroller.Ilist2
import Scroller.Lib.IndexChain

/-!
# The layout of the doubly linked list

The nodes of the list, read forward through `next` and backward through `prev`, and the freelist share
the array. Each operation is described by what it does to the list of indices; the data of the nodes it
does not name stays as it was.
-/

namespace Scroller.Ilist2

open IndexChain

variable {V : Type}

def nexts (list : Ilist2 V) (i : Nat) : Option Nat := (list.nodes i).next

def prevs (list : Ilist2 V) (i : Nat) : Option Nat := (list.nodes i).prev

def values (list : Ilist2 V) (i : Nat) : V := (list.nodes i).data

/-- The nodes `l` are the list from front to back, the nodes `fl` are free. -/
structure Layout (list : Ilist2 V) (l fl : List Nat) : Prop where
  fwd : IsChain list.nexts list.frontIdx l
  bwd : IsChain list.prevs list.backIdx l.reverse
  free : IsChain list.nexts list.freelistHead fl
  pool : (l ++ fl).Perm (List.range list.listsz)

/-! ### The fields after an access -/

section Fields

variable (list : Ilist2 V) (idx : Nat) (x : Option Nat) (v : V)

@[simp]
theorem listsz_putPrev : (list.putPrev idx x).listsz = list.listsz := rfl

@[simp]
theorem listsz_putNext : (list.putNext idx x).listsz = list.listsz := rfl

@[simp]
theorem nexts_putPrev : (list.putPrev idx x).nexts = list.nexts := by
  funext i
  by_cases hi : i = idx
  · simp [nexts, putPrev, hi]
  · simp [nexts, putPrev, hi]

@[simp]
theorem nexts_putNext : (list.putNext idx x).nexts = Function.update list.nexts idx x := by
  funext i
  by_cases hi : i = idx
  · simp [nexts, putNext, hi]
  · simp [nexts, putNext, hi]

@[simp]
theorem nexts_putData : (list.putData idx v).nexts = list.nexts := by
  funext i
  by_cases hi : i = idx
  · simp [nexts, putData, hi]
  · simp [nexts, putData, hi]

@[simp]
theorem prevs_putPrev : (list.putPrev idx x).prevs = Function.update list.prevs idx x := by
  funext i
  by_cases hi : i = idx
  · simp [prevs, putPrev, hi]
  · simp [prevs, putPrev, hi]

@[simp]
theorem prevs_putNext : (list.putNext idx x).prevs = list.prevs := by
  funext i
  by_cases hi : i = idx
  · simp [prevs, putNext, hi]
  · simp [prevs, putNext, hi]

@[simp]
theorem prevs_putData : (list.putData idx v).prevs = list.prevs := by
  funext i
  by_cases hi : i = idx
  · simp [prevs, putData, hi]
  · simp [prevs, putData, hi]

@[simp]
theorem values_putPrev : (list.putPrev idx x).values = list.values := by
  funext i
  by_cases hi : i = idx
  · simp [values, putPrev, hi]
  · simp [values, putPrev, hi]

@[simp]
theorem values_putNext : (list.putNext idx x).values = list.values := by
  funext i
  by_cases hi : i = idx
  · simp [values, putNext, hi]
  · simp [values, putNext, hi]

@[simp]
theorem values_putData : (list.putData idx v).values = Function.update list.values idx v := by
  funext i
  by_cases hi : i = idx
  · simp [values, putData, hi]
  · simp [values, putData, hi]

end Fields

namespace Layout

variable {list : Ilist2 V} {l fl : List Nat}

theorem nodup (h : list.Layout l fl) : (l ++ fl).Nodup :=
  h.pool.nodup_iff.mpr List.nodup_range

theorem lt_of_mem (h : list.Layout l fl) {i : Nat} (hi : i ∈ l) : i < list.listsz :=
  List.mem_range.mp (h.pool.mem_iff.mp (List.mem_append_left _ hi))

theorem lt_of_mem_free (h : list.Layout l fl) {i : Nat} (hi : i ∈ fl) : i < list.listsz :=
  List.mem_range.mp (h.pool.mem_iff.mp (List.mem_append_right _ hi))

theorem not_mem_free (h : list.Layout l fl) {i : Nat} (hi : i ∈ l) : i ∉ fl := by
  intro hfree
  exact (List.nodup_append.mp h.nodup).2.2 i hi i hfree rfl

theorem length_add (h : list.Layout l fl) : l.length + fl.length = list.listsz := by
  have hlen := h.pool.length_eq
  rwa [List.length_append, List.length_range] at hlen

end Layout

theorem layout_clear (list : Ilist2 V) : list.clear.Layout [] (List.range list.listsz) := by
  refine ⟨rfl, rfl, ?_, List.Perm.refl _⟩
  refine isChain_range ?_ ?_
  · intro i hi
    simp only [nexts, clear]
    rw [if_neg (by omega)]
  · intro i hi
    simp only [nexts, clear]
    rw [if_pos hi]

/-! ### Popping -/

theorem Layout.popBack {list : Ilist2 V} {l fl : List Nat} {back : Nat}
    (h : list.Layout (l ++ [back]) fl) :
    ∃ list', list.popBack = .ok (list', list.values back) ∧ list'.Layout l (back :: fl)
      ∧ list'.values = list.values ∧ list'.listsz = list.listsz := by
  have hback := h.lt_of_mem (i := back) (by simp)
  have hnodup := (List.nodup_append.mp h.nodup).1
  have hpool : (l ++ back :: fl).Perm (List.range list.listsz) := by
    have hold := h.pool
    rwa [List.append_assoc] at hold
  have hbwd := h.bwd
  rw [List.reverse_append, List.reverse_singleton, List.singleton_append] at hbwd
  obtain ⟨hbackIdx, hprev⟩ := hbwd
  have hfree : IsChain (Function.update list.nexts back list.freelistHead) (some back)
      (back :: fl) := by
    refine ⟨rfl, ?_⟩
    rw [Function.update_self]
    refine h.free.frame fun i hi => Function.update_of_ne ?_ _ _
    rintro rfl
    exact h.not_mem_free (by simp) hi
  rcases List.eq_nil_or_concat l with rfl | ⟨init, last, rfl⟩
  · have hnone : (list.nodes back).prev = none := hprev
    refine ⟨{ list.putNext back list.freelistHead with
      freelistHead := some back, frontIdx := none, backIdx := none }, ?_, ?_, ?_, rfl⟩
    · simp only [Ilist2.popBack, hbackIdx, at?, load, setNext, checked, hback, if_true, bind, Except.bind]
      rw [hnone]
      rfl
    · refine ⟨rfl, rfl, ?_, hpool⟩
      rw [← nexts_putNext] at hfree
      exact hfree
    · exact values_putNext list _ _
  · rw [List.concat_eq_append] at *
    have hlast := h.lt_of_mem (i := last) (by simp)
    have hchain := hprev
    rw [List.reverse_append, List.reverse_singleton, List.singleton_append] at hchain
    have hsome : (list.nodes back).prev = some last := hchain.1
    have hfwd : IsChain list.nexts list.frontIdx (init ++ last :: [back]) := by
      simpa using h.fwd
    have hne : last ≠ back := by
      rintro rfl
      exact (List.nodup_append.mp hnodup).2.2 last (by simp) last (by simp) rfl
    refine ⟨{ (list.putNext back list.freelistHead).putNext last none with
      freelistHead := some back, backIdx := some last }, ?_, ?_, ?_, rfl⟩
    · simp only [Ilist2.popBack, hbackIdx, at?, load, setNext, checked, hback, if_true, bind,
        Except.bind]
      rw [hsome]
      simp only [listsz_putNext, hlast, if_true]
      rfl
    · have hnexts : ((list.putNext back list.freelistHead).putNext last none).nexts
          = Function.update (Function.update list.nexts back list.freelistHead) last none := by
        rw [nexts_putNext, nexts_putNext]
      refine ⟨?_, ?_, ?_, hpool⟩
      · refine IsChain.truncate hfwd ?_ ?_
        · change ((list.putNext back list.freelistHead).putNext last none).nexts last = none
          rw [hnexts, Function.update_self]
        · intro i hi
          change ((list.putNext back list.freelistHead).putNext last none).nexts i = _
          have hmem : (init ++ [last] ++ [back]).Nodup := hnodup
          rw [List.append_assoc, List.nodup_append] at hmem
          rw [hnexts, Function.update_of_ne (hmem.2.2 i hi last (by simp)),
            Function.update_of_ne (hmem.2.2 i hi back (by simp))]
      · change IsChain ((list.putNext back list.freelistHead).putNext last none).prevs (some last) _
        rw [prevs_putNext, prevs_putNext, ← hsome]
        exact hprev
      · change IsChain ((list.putNext back list.freelistHead).putNext last none).nexts (some back) _
        rw [hnexts]
        refine hfree.frame fun i hi => Function.update_of_ne ?_ _ _
        rintro rfl
        rcases List.mem_cons.mp hi with heq | hi
        · exact hne heq
        · exact h.not_mem_free (by simp) hi
    · change ((list.putNext back list.freelistHead).putNext last none).values = _
      rw [values_putNext, values_putNext]

theorem Layout.popFront {list : Ilist2 V} {l fl : List Nat} {front : Nat}
    (h : list.Layout (front :: l) fl) :
    ∃ list', list.popFront = .ok (list', list.values front) ∧ list'.Layout l (front :: fl)
      ∧ list'.values = list.values ∧ list'.listsz = list.listsz := by
  have hfront := h.lt_of_mem (i := front) (by simp)
  have hnotin : front ∉ l := (List.nodup_cons.mp (List.nodup_append.mp h.nodup).1).1
  have hpool : (l ++ front :: fl).Perm (List.range list.listsz) := List.perm_middle.trans h.pool
  obtain ⟨hfrontIdx, hnext⟩ := h.fwd
  have hfree : IsChain (Function.update list.nexts front list.freelistHead) (some front)
      (front :: fl) := by
    refine ⟨rfl, ?_⟩
    rw [Function.update_self]
    refine h.free.frame fun i hi => Function.update_of_ne ?_ _ _
    rintro rfl
    exact h.not_mem_free (by simp) hi
  have hrest : IsChain (Function.update list.nexts front list.freelistHead) (list.nexts front) l :=
    hnext.frame fun i hi => Function.update_of_ne (ne_of_mem_of_not_mem hi hnotin) _ _
  rw [← nexts_putNext] at hfree hrest
  cases l with
  | nil =>
      have hnone : (list.nodes front).next = none := hnext
      refine ⟨{ list.putNext front list.freelistHead with
        freelistHead := some front, frontIdx := none, backIdx := none }, ?_, ?_, ?_, rfl⟩
      · simp only [Ilist2.popFront, hfrontIdx, at?, load, setNext, checked, hfront, if_true, bind,
          Except.bind]
        rw [hnone]
        rfl
      · exact ⟨rfl, rfl, hfree, hpool⟩
      · exact values_putNext list _ _
  | cons next rest =>
      have hnextlt := h.lt_of_mem (i := next) (by simp)
      have hsome : (list.nodes front).next = some next := hnext.1
      refine ⟨{ (list.putNext front list.freelistHead).putPrev next none with
        freelistHead := some front, frontIdx := some next }, ?_, ⟨?_, ?_, ?_, hpool⟩, ?_, rfl⟩
      · simp only [Ilist2.popFront, hfrontIdx, at?, load, setNext, setPrev, checked, hfront, if_true,
          bind, Except.bind]
        rw [hsome]
        simp only [listsz_putNext, hnextlt, if_true]
        rfl
      · change IsChain ((list.putNext front list.freelistHead).putPrev next none).nexts (some next) _
        rw [nexts_putPrev, ← hsome]
        exact hrest
      · change IsChain ((list.putNext front list.freelistHead).putPrev next none).prevs list.backIdx _
        rw [prevs_putPrev, prevs_putNext, List.reverse_cons]
        have hbwd : IsChain list.prevs list.backIdx (rest.reverse ++ next :: [front]) := by
          simpa using h.bwd
        refine hbwd.truncate (Function.update_self _ _ _) fun i hi => Function.update_of_ne ?_ _ _
        rintro rfl
        have hdup := (List.nodup_cons.mp (List.nodup_append.mp h.nodup).1).2
        exact (List.nodup_cons.mp hdup).1 (List.mem_reverse.mp hi)
      · change IsChain ((list.putNext front list.freelistHead).putPrev next none).nexts (some front) _
        rw [nexts_putPrev]
        exact hfree
      · change ((list.putNext front list.freelistHead).putPrev next none).values = _
        rw [values_putPrev, values_putNext]

/-! ### Putting -/

section Put

variable {list : Ilist2 V} {l fl : List Nat} {new : Nat} {v : V}

theorem Layout.putBack_full (h : list.Layout l []) : list.putBack v = .ok (list, none) := by
  have hhead : list.freelistHead = none := h.free
  simp only [putBack, touchBack, hhead, putTouched, bind, Except.bind, pure, Except.pure]

theorem Layout.touchNew (h : list.Layout [] (new :: fl)) :
    ∃ list', list.touchNew new = .ok list' ∧ list'.Layout [new] fl
      ∧ list'.values = list.values ∧ list'.listsz = list.listsz := by
  have hnew := h.lt_of_mem_free (i := new) (by simp)
  obtain ⟨hhead, hfree⟩ := h.free
  have hnotfree : new ∉ fl := (List.nodup_cons.mp h.nodup).1
  refine ⟨{ (list.putPrev new none).putNext new none with
    freelistHead := list.nexts new, backIdx := some new, frontIdx := some new }, ?_,
    ⟨?_, ?_, ?_, h.pool⟩, ?_, rfl⟩
  · simp only [Ilist2.touchNew, load, setPrev, setNext, checked, listsz_putPrev, hnew, if_true, bind,
      Except.bind]
    rfl
  · refine ⟨rfl, ?_⟩
    change ((list.putPrev new none).putNext new none).nexts new = none
    rw [nexts_putNext, Function.update_self]
  · refine ⟨rfl, ?_⟩
    change ((list.putPrev new none).putNext new none).prevs new = none
    rw [prevs_putNext, prevs_putPrev, Function.update_self]
  · change IsChain ((list.putPrev new none).putNext new none).nexts (list.nexts new) fl
    rw [nexts_putNext, nexts_putPrev]
    exact hfree.frame fun i hi => Function.update_of_ne (ne_of_mem_of_not_mem hi hnotfree) _ _
  · change ((list.putPrev new none).putNext new none).values = list.values
    rw [values_putNext, values_putPrev]

theorem Layout.touchFront (h : list.Layout l (new :: fl)) :
    ∃ list', list.touchFront = .ok (list', some new) ∧ list'.Layout (new :: l) fl
      ∧ list'.values = list.values ∧ list'.listsz = list.listsz := by
  have hnew := h.lt_of_mem_free (i := new) (by simp)
  have hnotin : new ∉ l := fun hmem => h.not_mem_free hmem (by simp)
  obtain ⟨hhead, hfree⟩ := h.free
  have hnotfree : new ∉ fl := (List.nodup_cons.mp (List.nodup_append.mp h.nodup).2.1).1
  cases l with
  | nil =>
      have hfront : list.frontIdx = none := h.fwd
      obtain ⟨list', hok, hlayout, hvalues, hsz⟩ := h.touchNew
      refine ⟨list', ?_, hlayout, hvalues, hsz⟩
      simp only [Ilist2.touchFront, hhead, hfront, if_true, hok, bind, Except.bind]
      rfl
  | cons front rest =>
      have hfrontlt := h.lt_of_mem (i := front) (by simp)
      have hfront : list.frontIdx = some front := h.fwd.1
      have hne : front ≠ new := fun heq => hnotin (by simp [heq])
      refine ⟨{ ((list.putPrev front (some new)).putPrev new none).putNext new list.frontIdx with
        freelistHead := list.nexts new, frontIdx := some new }, ?_, ⟨?_, ?_, ?_, ?_⟩, ?_, rfl⟩
      · have hload : ((list.putPrev front (some new)).nodes new).next = list.nexts new :=
          congrFun (nexts_putPrev list front (some new)) new
        simp only [Ilist2.touchFront, hhead, hfront, reduceCtorEq, if_false, at?, load, setPrev,
          setNext, checked, hfrontlt, if_true, listsz_putPrev, hnew, hload, bind, Except.bind]
        rw [← hfront]
        rfl
      · refine ⟨rfl, ?_⟩
        change IsChain (((list.putPrev front (some new)).putPrev new none).putNext new
          list.frontIdx).nexts ((((list.putPrev front (some new)).putPrev new none).putNext new
          list.frontIdx).nexts new) (front :: rest)
        rw [nexts_putNext, nexts_putPrev, nexts_putPrev, Function.update_self]
        exact h.fwd.frame fun i hi => Function.update_of_ne (ne_of_mem_of_not_mem hi hnotin) _ _
      · change IsChain (((list.putPrev front (some new)).putPrev new none).putNext new
          list.frontIdx).prevs list.backIdx _
        rw [prevs_putNext, prevs_putPrev, prevs_putPrev, List.reverse_cons, List.reverse_cons,
          List.append_assoc]
        refine @IsChain.append_last list.prevs _ _ _ _ _ ?_ ?_ ?_ ?_
        · rw [← List.reverse_cons]
          exact h.bwd
        · rw [Function.update_of_ne hne, Function.update_self]
        · rw [Function.update_self]
        · intro i hi
          have hmem : i ∈ rest := List.mem_reverse.mp hi
          have hifront : i ≠ front := by
            rintro rfl
            exact (List.nodup_cons.mp (List.nodup_append.mp h.nodup).1).1 hmem
          rw [Function.update_of_ne (fun heq => hnotin (by simp [← heq, hmem])),
            Function.update_of_ne hifront]
      · change IsChain (((list.putPrev front (some new)).putPrev new none).putNext new
          list.frontIdx).nexts (list.nexts new) fl
        rw [nexts_putNext, nexts_putPrev, nexts_putPrev]
        exact hfree.frame fun i hi => Function.update_of_ne (ne_of_mem_of_not_mem hi hnotfree) _ _
      · exact List.perm_middle.symm.trans h.pool
      · change (((list.putPrev front (some new)).putPrev new none).putNext new
          list.frontIdx).values = _
        rw [values_putNext, values_putPrev, values_putPrev]

theorem Layout.touchBack (h : list.Layout l (new :: fl)) :
    ∃ list', list.touchBack = .ok (list', some new) ∧ list'.Layout (l ++ [new]) fl
      ∧ list'.values = list.values ∧ list'.listsz = list.listsz := by
  have hnew := h.lt_of_mem_free (i := new) (by simp)
  have hnotin : new ∉ l := fun hmem => h.not_mem_free hmem (by simp)
  obtain ⟨hhead, hfree⟩ := h.free
  have hnotfree : new ∉ fl := (List.nodup_cons.mp (List.nodup_append.mp h.nodup).2.1).1
  rcases List.eq_nil_or_concat l with rfl | ⟨init, back, rfl⟩
  · have hfront : list.frontIdx = none := h.fwd
    obtain ⟨list', hok, hlayout, hvalues, hsz⟩ := h.touchNew
    refine ⟨list', ?_, hlayout, hvalues, hsz⟩
    simp only [Ilist2.touchBack, hhead, hfront, if_true, hok, bind, Except.bind]
    rfl
  · rw [List.concat_eq_append] at *
    have hbacklt := h.lt_of_mem (i := back) (by simp)
    have hbwd := h.bwd
    rw [List.reverse_append, List.reverse_singleton, List.singleton_append] at hbwd
    have hback : list.backIdx = some back := hbwd.1
    have hfront : list.frontIdx ≠ none := by
      intro hnone
      have hfwd := h.fwd
      rw [hnone] at hfwd
      have hnil := isChain_none.mp hfwd
      simp at hnil
    have hne : new ≠ back := fun heq => hnotin (by simp [heq])
    refine ⟨{ ((list.putNext back (some new)).putPrev new list.backIdx).putNext new none with
      freelistHead := list.nexts new, backIdx := some new }, ?_, ⟨?_, ?_, ?_, ?_⟩, ?_, rfl⟩
    · have hload : ((list.putNext back (some new)).nodes new).next = list.nexts new := by
        have hnexts := congrFun (nexts_putNext list back (some new)) new
        rw [Function.update_of_ne hne] at hnexts
        exact hnexts
      simp only [Ilist2.touchBack, hhead, if_neg hfront, hback, at?, load, setPrev, setNext, checked,
        hbacklt, if_true, listsz_putNext, listsz_putPrev, hnew, hload, bind, Except.bind]
      rw [← hback]
      rfl
    · change IsChain (((list.putNext back (some new)).putPrev new list.backIdx).putNext new
        none).nexts list.frontIdx _
      rw [nexts_putNext, nexts_putPrev, nexts_putNext, List.append_assoc]
      refine IsChain.append_last h.fwd ?_ ?_ ?_
      · rw [Function.update_of_ne hne.symm, Function.update_self]
      · rw [Function.update_self]
      · intro i hi
        have hiback : i ≠ back := by
          rintro rfl
          have hdup := (List.nodup_append.mp h.nodup).1
          exact (List.nodup_append.mp hdup).2.2 i hi i (by simp) rfl
        rw [Function.update_of_ne (fun heq => hnotin (by simp [← heq, hi])),
          Function.update_of_ne hiback]
    · rw [List.reverse_append, List.reverse_singleton, List.singleton_append]
      refine ⟨rfl, ?_⟩
      change IsChain (((list.putNext back (some new)).putPrev new list.backIdx).putNext new
        none).prevs ((((list.putNext back (some new)).putPrev new list.backIdx).putNext new
        none).prevs new) _
      rw [prevs_putNext, prevs_putPrev, prevs_putNext, Function.update_self]
      refine h.bwd.frame fun i hi => Function.update_of_ne ?_ _ _
      exact ne_of_mem_of_not_mem (List.mem_reverse.mp hi) hnotin
    · change IsChain (((list.putNext back (some new)).putPrev new list.backIdx).putNext new
        none).nexts (list.nexts new) fl
      rw [nexts_putNext, nexts_putPrev, nexts_putNext]
      refine hfree.frame fun i hi => ?_
      have hiback : i ≠ back := by
        rintro rfl
        exact h.not_mem_free (by simp) (List.mem_cons_of_mem _ hi)
      rw [Function.update_of_ne (ne_of_mem_of_not_mem hi hnotfree), Function.update_of_ne hiback]
    · have hpool := h.pool
      rwa [List.append_assoc]
    · change (((list.putNext back (some new)).putPrev new list.backIdx).putNext new
        none).values = _
      rw [values_putNext, values_putPrev, values_putNext]

theorem Layout.setData (h : list.Layout l fl) (v : V) {idx : Nat} (hidx : idx ∈ l) :
    ∃ list', list.setData idx v = .ok list' ∧ list'.Layout l fl
      ∧ list'.values = Function.update list.values idx v ∧ list'.listsz = list.listsz := by
  refine ⟨list.putData idx v, ?_, ⟨?_, ?_, ?_, h.pool⟩, values_putData list idx v, rfl⟩
  · simp only [Ilist2.setData, checked, h.lt_of_mem hidx, if_true]
  · rw [nexts_putData]
    exact h.fwd
  · rw [prevs_putData]
    exact h.bwd
  · rw [nexts_putData]
    exact h.free

theorem Layout.putTouched (h : list.Layout l fl) (v : V) {idx : Nat} (hidx : idx ∈ l) :
    ∃ list', putTouched (list, some idx) v = .ok (list', some idx) ∧ list'.Layout l fl
      ∧ list'.values = Function.update list.values idx v ∧ list'.listsz = list.listsz := by
  obtain ⟨list', hset, hlayout, hvalues, hsz⟩ := h.setData v hidx
  refine ⟨list', ?_, hlayout, hvalues, hsz⟩
  simp only [Ilist2.putTouched, hset, bind, Except.bind]
  rfl

theorem Layout.putFront (h : list.Layout l (new :: fl)) (v : V) :
    ∃ list', list.putFront v = .ok (list', some new) ∧ list'.Layout (new :: l) fl
      ∧ list'.values = Function.update list.values new v ∧ list'.listsz = list.listsz := by
  obtain ⟨list₁, htouch, hlayout₁, hvalues₁, hsz₁⟩ := h.touchFront
  obtain ⟨list', hput, hlayout', hvalues', hsz'⟩ := hlayout₁.putTouched v List.mem_cons_self
  refine ⟨list', ?_, hlayout', by rw [hvalues', hvalues₁], hsz'.trans hsz₁⟩
  rw [Ilist2.putFront, htouch]
  exact hput

theorem Layout.putBack (h : list.Layout l (new :: fl)) (v : V) :
    ∃ list', list.putBack v = .ok (list', some new) ∧ list'.Layout (l ++ [new]) fl
      ∧ list'.values = Function.update list.values new v ∧ list'.listsz = list.listsz := by
  obtain ⟨list₁, htouch, hlayout₁, hvalues₁, hsz₁⟩ := h.touchBack
  obtain ⟨list', hput, hlayout', hvalues', hsz'⟩ :=
    hlayout₁.putTouched v (List.mem_append_right _ List.mem_cons_self)
  refine ⟨list', ?_, hlayout', by rw [hvalues', hvalues₁], hsz'.trans hsz₁⟩
  rw [Ilist2.putBack, htouch]
  exact hput

end Put

/-! ### Moving -/

section Move

variable {list : Ilist2 V} {l fl : List Nat}

/-- Taking `idx` out of the backward chain: its successor, or the back of the list, takes over its
predecessor. -/
theorem linkPrev_eq {init rest : List Nat} {prev idx : Nat}
    (hbwd : IsChain list.prevs list.backIdx (rest.reverse ++ idx :: prev :: init.reverse))
    (hdup : (init ++ prev :: idx :: rest).Nodup) (hlt : ∀ i ∈ rest, i < list.listsz) :
    ∃ list', list.linkPrev rest.head? prev = .ok list'
      ∧ IsChain list'.prevs list'.backIdx (init ++ prev :: rest).reverse
      ∧ list'.nexts = list.nexts ∧ list'.frontIdx = list.frontIdx
      ∧ list'.freelistHead = list.freelistHead ∧ list'.values = list.values
      ∧ list'.listsz = list.listsz := by
  have hprev : list.prevs idx = some prev := hbwd.suffix.1
  cases rest with
  | nil =>
      refine ⟨{ list with backIdx := some prev }, rfl, ?_, rfl, rfl, rfl, rfl, rfl⟩
      rw [List.reverse_append, List.reverse_singleton]
      exact ⟨rfl, hbwd.2.2⟩
  | cons nextIdx rest =>
      refine ⟨list.putPrev nextIdx (some prev), ?_, ?_, nexts_putPrev list _ _, rfl, rfl,
        values_putPrev list _ _, rfl⟩
      · simp only [List.head?_cons, linkPrev, setPrev, checked, hlt nextIdx (by simp), if_true]
      · rw [prevs_putPrev]
        have hchain : IsChain (Function.update list.prevs nextIdx (some prev)) list.backIdx
            (rest.reverse ++ nextIdx :: (prev :: init.reverse)) := by
          refine @IsChain.bypass _ _ _ _ _ _ idx (by simpa using hbwd) ?_ ?_
          · rw [Function.update_self, hprev]
          · intro i hi
            refine Function.update_of_ne ?_ _ _
            rintro rfl
            simp only [List.nodup_append, List.nodup_cons, List.mem_cons, List.mem_append,
              List.mem_reverse] at hdup hi
            grind
        rw [List.reverse_append, List.reverse_cons, List.reverse_cons, List.append_assoc,
          List.append_assoc]
        exact hchain

theorem Layout.moveFrontByIdx {init rest : List Nat} {idx : Nat}
    (h : list.Layout (init ++ idx :: rest) fl) (build : Build) :
    ∃ list', moveFrontByIdx build list (some idx) = .ok list'
      ∧ list'.Layout (idx :: (init ++ rest)) fl
      ∧ list'.values = list.values ∧ list'.listsz = list.listsz := by
  have hidx := h.lt_of_mem (i := idx) (by simp)
  have hdup := (List.nodup_append.mp h.nodup).1
  have hpool : ((idx :: (init ++ rest)) ++ fl).Perm (List.range list.listsz) :=
    (List.Perm.append_right fl List.perm_middle.symm).trans h.pool
  rcases List.eq_nil_or_concat init with rfl | ⟨init, prev, rfl⟩
  · have hbwd : IsChain list.prevs list.backIdx (rest.reverse ++ [idx]) := by
      simpa using h.bwd
    have hnone : (list.nodes idx).prev = none := hbwd.suffix
    refine ⟨list, ?_, h, rfl, rfl⟩
    simp only [Ilist2.moveFrontByIdx, at?, load, checked, hidx, if_true, Build.assert_of, bind,
      Except.bind]
    rw [hnone]
    rfl
  rw [List.concat_eq_append, List.append_assoc] at *
  simp only [List.singleton_append] at *
  have hprevlt := h.lt_of_mem (i := prev) (by simp)
  have hbwd : IsChain list.prevs list.backIdx (rest.reverse ++ idx :: prev :: init.reverse) := by
    simpa using h.bwd
  have hfwd : IsChain list.nexts (list.nexts idx) rest :=
    IsChain.suffix (l := init ++ [prev]) (by simpa using h.fwd)
  have hsome : (list.nodes idx).prev = some prev := hbwd.suffix.1
  have hnext : (list.nodes idx).next = rest.head? := by
    cases rest with
    | nil => exact hfwd
    | cons i rest => exact hfwd.1
  have hmem : ∀ i, i ∈ init ++ prev :: rest → i ≠ idx ∧ i ∈ init ++ prev :: idx :: rest := by
    intro i hi
    simp only [List.nodup_append, List.nodup_cons, List.mem_cons, List.mem_append] at hdup hi ⊢
    grind
  -- after the first write the predecessor skips `idx`
  have hfwd₁ : IsChain (list.putNext prev (list.nexts idx)).nexts list.frontIdx
      (init ++ prev :: rest) := by
    rw [nexts_putNext]
    refine IsChain.bypass h.fwd (Function.update_self _ _ _) fun i hi => Function.update_of_ne ?_ _ _
    rintro rfl
    simp only [List.nodup_append, List.nodup_cons, List.mem_cons, List.mem_append] at hdup hi
    grind
  obtain ⟨list₂, hok₂, hbwd₂, hnexts₂, hfront₂, hfree₂, hvalues₂, hsz₂⟩ :=
    @linkPrev_eq V (list.putNext prev (list.nexts idx)) init rest prev idx
      (by rw [prevs_putNext]; exact hbwd) hdup
      (fun i hi => h.lt_of_mem (by simp [hi]))
  -- the front of the list is the head of what is left
  obtain ⟨front, tail, hsplit⟩ : ∃ front tail, init ++ prev :: rest = front :: tail := by
    cases init with
    | nil => exact ⟨prev, rest, rfl⟩
    | cons i init => exact ⟨i, init ++ prev :: rest, rfl⟩
  have hfront : list.frontIdx = some front := by
    rw [hsplit] at hfwd₁
    exact hfwd₁.1
  obtain ⟨hfrontne, hfrontmem⟩ := hmem front (by rw [hsplit]; simp)
  have hfrontlt := h.lt_of_mem hfrontmem
  have hlist₂ : list₂.listsz = list.listsz := hsz₂
  have hfrontIdx₂ : list₂.frontIdx = some front := hfront₂.trans hfront
  refine ⟨{ ((list₂.putPrev front (some idx)).putPrev idx none).putNext idx (some front) with
    frontIdx := some idx }, ?_, ⟨?_, ?_, ?_, ?_⟩, ?_, hsz₂⟩
  · simp only [Ilist2.moveFrontByIdx, at?, load, setNext, checked, hidx, if_true, Build.assert_of,
      bind, Except.bind]
    rw [hsome, hnext]
    simp only [hprevlt, if_true]
    have hnexts : list.nexts idx = rest.head? := hnext
    rw [hnexts] at hok₂
    rw [hok₂]
    simp only [hfrontIdx₂, setPrev, checked, hlist₂, hfrontlt, hidx, if_true, listsz_putPrev]
    rw [← hfrontIdx₂]
    rfl
  · refine ⟨rfl, ?_⟩
    change IsChain (((list₂.putPrev front (some idx)).putPrev idx none).putNext idx (some front)).nexts
      ((((list₂.putPrev front (some idx)).putPrev idx none).putNext idx (some front)).nexts idx) _
    rw [nexts_putNext, nexts_putPrev, nexts_putPrev, Function.update_self, hnexts₂, ← hfront]
    exact hfwd₁.frame fun i hi => Function.update_of_ne (hmem i hi).1 _ _
  · change IsChain (((list₂.putPrev front (some idx)).putPrev idx none).putNext idx (some front)).prevs
      list₂.backIdx _
    rw [prevs_putNext, prevs_putPrev, prevs_putPrev, List.reverse_cons, hsplit, List.reverse_cons,
      List.append_assoc]
    rw [hsplit, List.reverse_cons] at hbwd₂
    refine hbwd₂.append_last ?_ ?_ ?_
    · rw [Function.update_of_ne hfrontne, Function.update_self]
    · rw [Function.update_self]
    · intro i hi
      have htail := List.mem_reverse.mp hi
      have hifront : i ≠ front := by
        rintro rfl
        have hnodup : (init ++ prev :: rest).Nodup := by
          refine hdup.sublist ?_
          exact List.Sublist.append_left ((List.sublist_cons_self _ _).cons_cons _) _
        rw [hsplit] at hnodup
        exact (List.nodup_cons.mp hnodup).1 htail
      rw [Function.update_of_ne (hmem i (by rw [hsplit]; simp [htail])).1,
        Function.update_of_ne hifront]
  · change IsChain (((list₂.putPrev front (some idx)).putPrev idx none).putNext idx (some front)).nexts
      list₂.freelistHead fl
    rw [nexts_putNext, nexts_putPrev, nexts_putPrev, hnexts₂, nexts_putNext, hfree₂]
    refine h.free.frame fun i hi => ?_
    have hifree : ∀ j ∈ init ++ prev :: idx :: rest, i ≠ j := by
      rintro j hj rfl
      exact h.not_mem_free hj hi
    rw [Function.update_of_ne (hifree idx (by simp)), Function.update_of_ne (hifree prev (by simp))]
  · change ((idx :: (init ++ prev :: rest)) ++ fl).Perm (List.range list₂.listsz)
    rw [hlist₂]
    exact hpool
  · change (((list₂.putPrev front (some idx)).putPrev idx none).putNext idx (some front)).values = _
    rw [values_putNext, values_putPrev, values_putPrev, hvalues₂, values_putNext]

/-- Taking `idx` out of the forward chain: its predecessor, or the front of the list, takes over its
successor. -/
theorem linkNext_eq {init rest : List Nat} {next idx : Nat}
    (hfwd : IsChain list.nexts list.frontIdx (init ++ idx :: next :: rest))
    (hdup : (init ++ idx :: next :: rest).Nodup) (hlt : ∀ i ∈ init, i < list.listsz) :
    ∃ list', list.linkNext init.getLast? next = .ok list'
      ∧ IsChain list'.nexts list'.frontIdx (init ++ next :: rest)
      ∧ list'.prevs = list.prevs ∧ list'.backIdx = list.backIdx
      ∧ list'.freelistHead = list.freelistHead
      ∧ (∀ i, i ∉ init → list'.nexts i = list.nexts i) ∧ list'.values = list.values
      ∧ list'.listsz = list.listsz := by
  have hnext : list.nexts idx = some next := hfwd.suffix.1
  rcases List.eq_nil_or_concat init with rfl | ⟨init, prev, rfl⟩
  · exact ⟨{ list with frontIdx := some next }, rfl, ⟨rfl, hfwd.2.2⟩, rfl, rfl, rfl, fun _ _ => rfl,
      rfl, rfl⟩
  · rw [List.concat_eq_append] at *
    refine ⟨list.putNext prev (some next), ?_, ?_, prevs_putNext list _ _, rfl, rfl, ?_,
      values_putNext list _ _, rfl⟩
    · simp only [List.getLast?_concat, linkNext, setNext, checked, hlt prev (by simp), if_true]
    · rw [nexts_putNext, List.append_assoc]
      rw [List.append_assoc] at hfwd
      apply hfwd.bypass
      · rw [Function.update_self, hnext]
      · intro i hi
        apply Function.update_of_ne
        rintro rfl
        simp only [List.nodup_append, List.nodup_cons, List.mem_cons, List.mem_append] at hdup hi
        grind
    · intro i hi
      rw [nexts_putNext]
      apply Function.update_of_ne
      rintro rfl
      exact hi (by simp)

theorem Layout.moveBackByIdx {init rest : List Nat} {idx : Nat}
    (h : list.Layout (init ++ idx :: rest) fl) (build : Build) :
    ∃ list', moveBackByIdx build list (some idx) = .ok list'
      ∧ list'.Layout (init ++ rest ++ [idx]) fl
      ∧ list'.values = list.values ∧ list'.listsz = list.listsz := by
  have hidx := h.lt_of_mem (i := idx) (by simp)
  have hdup := (List.nodup_append.mp h.nodup).1
  cases rest with
  | nil =>
      have hnone : (list.nodes idx).next = none := h.fwd.suffix
      refine ⟨list, ?_, by rwa [List.append_nil], rfl, rfl⟩
      simp only [Ilist2.moveBackByIdx, at?, load, checked, hidx, if_true, Build.assert_of, bind,
        Except.bind]
      rw [hnone]
      rfl
  | cons next rest =>
      have hnextlt := h.lt_of_mem (i := next) (by simp)
      have hsome : (list.nodes idx).next = some next := h.fwd.suffix.1
      have hbwd : IsChain list.prevs list.backIdx (rest.reverse ++ next :: idx :: init.reverse) := by
        simpa using h.bwd
      have hprev : (list.nodes idx).prev = init.getLast? := by
        have hsuffix : IsChain list.prevs (list.prevs idx) init.reverse :=
          IsChain.suffix (l := rest.reverse ++ [next]) (by simpa using hbwd)
        rcases List.eq_nil_or_concat init with rfl | ⟨init, prev, rfl⟩
        · exact hsuffix
        · rw [List.concat_eq_append, List.reverse_append] at hsuffix
          rw [List.concat_eq_append, List.getLast?_concat]
          exact hsuffix.1
      have hmem : ∀ i, i ∈ init ++ next :: rest → i ≠ idx ∧ i ∈ init ++ idx :: next :: rest := by
        intro i hi
        simp only [List.nodup_append, List.nodup_cons, List.mem_cons, List.mem_append] at hdup hi ⊢
        grind
      -- after the first write the successor skips `idx`
      have hbwd₁ : IsChain (list.putPrev next (list.prevs idx)).prevs list.backIdx
          (init ++ next :: rest).reverse := by
        have hskip : IsChain (Function.update list.prevs next (list.prevs idx)) list.backIdx
            (rest.reverse ++ next :: init.reverse) := by
          apply hbwd.bypass (Function.update_self _ _ _)
          intro i hi
          apply Function.update_of_ne
          rintro rfl
          simp only [List.nodup_append, List.nodup_cons, List.mem_cons, List.mem_append,
            List.mem_reverse] at hdup hi
          grind
        rw [prevs_putPrev]
        simpa using hskip
      have hfwd₁ : IsChain (list.putPrev next (list.prevs idx)).nexts list.frontIdx
          (init ++ idx :: next :: rest) := by
        rw [nexts_putPrev]
        exact h.fwd
      obtain ⟨list₂, hok₂, hfwd₂, hprevs₂, hback₂, hfree₂, hnexts₂, hvalues₂, hsz₂⟩ :=
        linkNext_eq hfwd₁ hdup (fun i hi => h.lt_of_mem (by simp [hi]))
      -- the back of the list is the last node of what is left
      obtain ⟨lead, back, hsplit⟩ : ∃ lead back, init ++ next :: rest = lead ++ [back] := by
        rcases List.eq_nil_or_concat (init ++ next :: rest) with hnil | ⟨lead, back, hconcat⟩
        · simp at hnil
        · exact ⟨lead, back, by rw [hconcat, List.concat_eq_append]⟩
      have hback : list.backIdx = some back := by
        rw [hsplit, List.reverse_append, List.reverse_singleton] at hbwd₁
        exact hbwd₁.1
      obtain ⟨hbackne, hbackmem⟩ := hmem back (by rw [hsplit]; simp)
      have hbacklt := h.lt_of_mem hbackmem
      have hlist₂ : list₂.listsz = list.listsz := hsz₂
      have hbackIdx₂ : list₂.backIdx = some back := hback₂.trans hback
      refine ⟨{ ((list₂.putNext back (some idx)).putPrev idx (some back)).putNext idx none with
        backIdx := some idx }, ?_, ⟨?_, ?_, ?_, ?_⟩, ?_, hsz₂⟩
      · simp only [Ilist2.moveBackByIdx, at?, load, setPrev, checked, hidx, if_true, Build.assert_of,
          bind, Except.bind]
        rw [hsome, hprev]
        simp only [hnextlt, if_true]
        have hprevs : list.prevs idx = init.getLast? := hprev
        rw [hprevs] at hok₂
        rw [hok₂]
        simp only [hbackIdx₂, setNext, checked, hlist₂, hbacklt, hidx, if_true, listsz_putPrev,
          listsz_putNext]
        rw [← hbackIdx₂]
        rfl
      · change IsChain (((list₂.putNext back (some idx)).putPrev idx (some back)).putNext idx none).nexts
          list₂.frontIdx _
        rw [nexts_putNext, nexts_putPrev, nexts_putNext]
        rw [hsplit] at hfwd₂ ⊢
        rw [List.append_assoc]
        apply hfwd₂.append_last
        · rw [Function.update_of_ne hbackne, Function.update_self]
        · rw [Function.update_self]
        · intro i hi
          have hiback : i ≠ back := by
            rintro rfl
            have hnodup := hfwd₂.nodup
            exact (List.nodup_append.mp hnodup).2.2 i hi i (by simp) rfl
          rw [Function.update_of_ne (hmem i (by rw [hsplit]; simp [hi])).1,
            Function.update_of_ne hiback]
      · rw [List.reverse_append, List.reverse_singleton, List.singleton_append]
        refine ⟨rfl, ?_⟩
        change IsChain (((list₂.putNext back (some idx)).putPrev idx (some back)).putNext idx none).prevs
          ((((list₂.putNext back (some idx)).putPrev idx (some back)).putNext idx none).prevs idx) _
        rw [prevs_putNext, prevs_putPrev, prevs_putNext, Function.update_self, hprevs₂, ← hback]
        apply hbwd₁.frame
        intro i hi
        exact Function.update_of_ne (hmem i (List.mem_reverse.mp hi)).1 _ _
      · change IsChain (((list₂.putNext back (some idx)).putPrev idx (some back)).putNext idx none).nexts
          list₂.freelistHead fl
        rw [nexts_putNext, nexts_putPrev, nexts_putNext, hfree₂]
        apply h.free.frame
        intro i hi
        have hifree : ∀ j ∈ init ++ idx :: next :: rest, i ≠ j := by
          rintro j hj rfl
          exact h.not_mem_free hj hi
        rw [Function.update_of_ne (hifree idx (by simp)), Function.update_of_ne (hifree back hbackmem),
          hnexts₂ i (fun hinit => hifree i (by simp [hinit]) rfl), nexts_putPrev]
      · change ((init ++ next :: rest ++ [idx]) ++ fl).Perm (List.range list₂.listsz)
        rw [hlist₂]
        apply List.Perm.trans _ h.pool
        apply List.Perm.append_right
        rw [List.append_assoc]
        exact List.Perm.append_left init (List.perm_append_singleton idx (next :: rest))
      · change (((list₂.putNext back (some idx)).putPrev idx (some back)).putNext idx none).values = _
        rw [values_putNext, values_putPrev, values_putNext, hvalues₂, values_putPrev]

end Move

end Scroller.Ilist2

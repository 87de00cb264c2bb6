import Scroller.HeapArray

/-!
# Dynamic arrays and failed allocations

The capacity in the header of an array is set before the block for it is there. As long as the block has the room
that the header counts on, the array is the list of the elements that were put.
-/

namespace Scroller

/-- What a call makes of the list of the elements: a put that returned `NULL` leaves it alone. -/
inductive ArrayOp.Lists {T : Type} : List T → ArrayOp T → ArrayReply T → List T → Prop
  | put (l : List T) (v : T) (answer : Option (Nat → T)) : Lists l (.put v answer) (.put true) (l ++ [v])
  | refused (l : List T) (v : T) (answer : Option (Nat → T)) : Lists l (.put v answer) (.put false) l
  | pop (l : List T) (v : T) (answer : Option (Nat → T)) : Lists (l ++ [v]) (.pop answer) (.pop v) l
  | clear (l : List T) : Lists l .clear .clear []

namespace HeapArray

variable {T : Type}

/-- The size is within the capacity, and the block has room for the capacity. -/
def Sound (usersz : Nat) (a : Option (HeapArray T)) : Prop :=
  ∀ h, a = some h → h.size ≤ h.capacity ∧ sizeofArray + usersz * h.capacity ≤ h.room

/-- In front of every call of a run and at its end the array is sound, and it holds the elements that were put and
stored and were not removed since. -/
def Tracks (build : Build) (usersz : Nat) (a : Option (HeapArray T)) (ops : List (ArrayOp T)) : Prop :=
  ∀ before after, ops = before ++ after →
    ∃ a' hist, Machine.exec (step build usersz) a before = .ok (a', hist)
      ∧ Machine.Follows ArrayOp.Lists (toList a) hist (toList a') ∧ Sound usersz a'

/-- An element is popped from an array that has one. -/
def Nonempty (a : Option (HeapArray T)) : ArrayOp T → Prop
  | .pop _ => toList a ≠ []
  | _ => True

/-- The capacity that `array_raise_fn` puts into the header of a full array. -/
def doubled (a : HeapArray T) : Nat := if a.capacity = 0 then 1 else a.capacity * 2

/-- The answers that an array gets along with. To a put that creates the array it is a block, unless there are no
assertions; to a put into a full array it is a block, unless the old one has room for the doubled capacity. The
size of a block does not wrap around. -/
def Granted (build : Build) (usersz : Nat) (a : Option (HeapArray T)) : ArrayOp T → Prop
  | .put _ answer =>
      match a, answer with
      | none, none => build = .release
      | none, some _ => sizeofArray + usersz * arrayDefaultCapacity < 2 ^ 64
      | some a, none => a.size = a.capacity → sizeofArray + usersz * a.doubled ≤ a.room
      | some a, some _ => a.size = a.capacity → sizeofArray + usersz * a.doubled < 2 ^ 64
  | _ => True

/-! ### The elements -/

theorem toList_some (a : HeapArray T) : toList (some a) = (List.range a.size).map a.items := rfl

theorem length_toList (a : HeapArray T) : (toList (some a)).length = a.size := by
  rw [toList_some, List.length_map, List.length_range]

theorem toList_succ {a a' : HeapArray T} (hsize : a'.size = a.size + 1)
    (hitems : ∀ i < a.size, a'.items i = a.items i) :
    toList (some a') = toList (some a) ++ [a'.items a.size] := by
  rw [toList_some, toList_some, hsize, List.range_succ, List.map_append]
  congr 1
  exact List.map_congr_left fun i hi => hitems i (List.mem_range.mp hi)

/-! ### The functions -/

section

variable {build : Build} {usersz : Nat} (husersz : 0 < usersz)

theorem bytes_of_lt {capacity : Nat} (h : sizeofArray + usersz * capacity < 2 ^ 64) :
    bytes usersz capacity = sizeofArray + usersz * capacity := Nat.mod_eq_of_lt h

include husersz in
theorem capacity_lt {capacity n : Nat} (h : sizeofArray + usersz * capacity ≤ n) : capacity < n := by
  have := Nat.le_mul_of_pos_left capacity husersz
  unfold sizeofArray at h
  omega

/-- A block with the room that was asked for keeps the elements that fit in it. -/
theorem moved_ok {a : HeapArray T} (fresh : Nat → T) (hfits : sizeofArray + usersz * a.capacity < 2 ^ 64) :
    ∃ a', a.moved usersz fresh = .ok a' ∧ a'.size = a.size ∧ a'.capacity = a.capacity
      ∧ a'.room = sizeofArray + usersz * a.capacity
      ∧ ∀ i, i < a.capacity → sizeofArray + usersz * (i + 1) ≤ a.room → a'.items i = a.items i := by
  have hbytes := bytes_of_lt hfits
  unfold moved
  rw [if_pos (by rw [hbytes]; omega)]
  refine ⟨_, rfl, rfl, rfl, hbytes, fun i hi hroom => ?_⟩
  have hle := Nat.mul_le_mul_left usersz (show i + 1 ≤ a.capacity from hi)
  dsimp only
  rw [if_pos (by rw [hbytes]; omega)]

theorem sound_some {a : HeapArray T} (hsize : a.size ≤ a.capacity)
    (hroom : sizeofArray + usersz * a.capacity ≤ a.room) : Sound usersz (some a) := by
  intro h heq
  cases heq
  exact ⟨hsize, hroom⟩

theorem sound_none : Sound usersz (none : Option (HeapArray T)) := by
  intro h heq
  cases heq

theorem last_fits {a : HeapArray T} (hsize : a.size ≤ a.capacity)
    (hroom : sizeofArray + usersz * a.capacity ≤ a.room) : sizeofArray + usersz * a.size ≤ a.room := by
  have := Nat.mul_le_mul_left usersz hsize
  omega

theorem putBack_raised {a a₁ : HeapArray T} (v : T) (hsize : a₁.size = a.size + 1) (hle : a₁.size ≤ a₁.capacity)
    (hroom : sizeofArray + usersz * a₁.capacity ≤ a₁.room) (hitems : ∀ i < a.size, a₁.items i = a.items i) :
    ∃ a', a₁.putBack usersz v = .ok a' ∧ toList (some a') = toList (some a) ++ [v] ∧ Sound usersz (some a') := by
  have hne : a₁.size ≠ 0 := by omega
  have hlast : a₁.size - 1 = a.size := by omega
  unfold putBack
  rw [if_pos ⟨hne, last_fits hle hroom⟩, hlast]
  refine ⟨_, rfl, ?_, sound_some hle hroom⟩
  have hsucc := @toList_succ _ a { a₁ with items := Function.update a₁.items a.size v } hsize fun i hi => by
    dsimp only
    rw [Function.update_of_ne (Nat.ne_of_lt hi), hitems i hi]
  rw [hsucc]
  dsimp only
  rw [Function.update_self]

include husersz

theorem doubled_eq {a : HeapArray T} (h : sizeofArray + usersz * a.doubled < 2 ^ 64) :
    (if a.capacity = 0 then 1 else a.capacity * 2 % 2 ^ 64) = a.doubled := by
  have hlt := capacity_lt husersz (Nat.le_refl (sizeofArray + usersz * a.doubled))
  unfold doubled at hlt h ⊢
  split
  · rfl
  next hne =>
    rw [if_neg hne] at hlt h
    exact Nat.mod_eq_of_lt (by omega)

omit husersz in
theorem lt_doubled {a : HeapArray T} : a.capacity < a.doubled := by
  unfold doubled
  split
  · omega
  · omega

theorem put_some {a : HeapArray T} {v : T} {answer : Option (Nat → T)} (ha : Sound usersz (some a))
    (h : Granted build usersz (some a) (.put v answer)) :
    ∃ a' stored, put build usersz (some a) v answer = .ok (a', stored)
      ∧ ArrayOp.Lists (toList (some a)) (.put v answer) (.put stored) (toList a') ∧ Sound usersz a' := by
  obtain ⟨hsize, hroom⟩ := ha a rfl
  have hcapacity := capacity_lt husersz hroom
  have hlt := a.room_lt
  unfold put raise
  by_cases hfull : a.size = a.capacity
  · cases answer with
    | none =>
        have hfits : sizeofArray + usersz * a.doubled ≤ a.room := h hfull
        have hdouble := doubled_eq husersz (Nat.lt_of_le_of_lt hfits hlt)
        refine ⟨some { a with capacity := a.doubled }, false, ?_, .refused _ v none, ?_⟩
        · simp only [Option.isNone_some, Bool.false_eq_true, if_false, if_pos hfull, hdouble, bind, Except.bind, pure,
            Except.pure]
        · exact sound_some (Nat.le_of_lt (hfull ▸ lt_doubled)) hfits
    | some fresh =>
        have hfits : sizeofArray + usersz * a.doubled < 2 ^ 64 := h hfull
        have hdouble := doubled_eq husersz hfits
        have hraised : (a.size + 1) % 2 ^ 64 = a.size + 1 := Nat.mod_eq_of_lt (by omega)
        obtain ⟨a₁, hmoved, hsize₁, hcapacity₁, hroom₁, hitems⟩ :=
          moved_ok (a := { a with capacity := a.doubled }) fresh hfits
        have hle : a.size + 1 ≤ a.doubled := hfull ▸ lt_doubled
        have hroom' : sizeofArray + usersz * a₁.capacity ≤ a₁.room := by
          exact Nat.le_of_eq (by rw [hcapacity₁, hroom₁])
        obtain ⟨a', hput, hlist, hsound⟩ := @putBack_raised _ usersz a { a₁ with size := a.size + 1 } v rfl
          (by dsimp only; rw [hcapacity₁]; exact hle) hroom' fun i hi => by
            have hle := Nat.mul_le_mul_left usersz (show i + 1 ≤ a.capacity by omega)
            exact hitems i (Nat.lt_trans (by omega) lt_doubled) (Nat.le_trans (by omega) hroom)
        refine ⟨some a', true, ?_, ?_, hsound⟩
        · have hsize₁ : a₁.size = a.size := hsize₁
          simp only [Option.isNone_some, Bool.false_eq_true, if_false, if_pos hfull, hdouble, bind, Except.bind, pure,
            Except.pure, hmoved, hsize₁, hraised, hput]
        · rw [hlist]
          exact .put _ v _
  · have hraised : (a.size + 1) % 2 ^ 64 = a.size + 1 := Nat.mod_eq_of_lt (by omega)
    obtain ⟨a', hput, hlist, hsound⟩ := @putBack_raised _ usersz a { a with size := a.size + 1 } v rfl
      (by dsimp only; omega) hroom fun _ _ => rfl
    refine ⟨some a', true, ?_, ?_, hsound⟩
    · simp only [Option.isNone_some, Bool.false_eq_true, if_false, if_neg hfull, hraised, bind, Except.bind, pure,
        Except.pure, hput]
    · rw [hlist]
      exact .put _ v answer

omit husersz in
theorem create_ok {capacity : Nat} (items : Nat → T) (hfits : sizeofArray + usersz * capacity < 2 ^ 64) :
    ∃ a, create usersz capacity (some items) = .ok (some a) ∧ a.size = 0 ∧ a.capacity = capacity
      ∧ a.room = sizeofArray + usersz * capacity := by
  have hbytes := bytes_of_lt hfits
  unfold create
  exact ⟨_, if_pos (by rw [hbytes]; omega), rfl, rfl, hbytes⟩

theorem put_none {v : T} {answer : Option (Nat → T)} (h : Granted build usersz none (.put v answer)) :
    ∃ a' stored, put build usersz none v answer = .ok (a', stored)
      ∧ ArrayOp.Lists (toList none) (.put v answer) (.put stored) (toList a') ∧ Sound usersz a' := by
  cases answer with
  | none =>
      have hrelease : build = .release := h
      subst hrelease
      exact ⟨none, false, rfl, .refused _ v none, sound_none⟩
  | some items =>
      obtain ⟨a, hcreate, hsize, hcapacity, hroom⟩ := create_ok items h
      have hempty : toList (some a) = [] := by rw [toList_some, hsize]; rfl
      have hnotFull : a.size ≠ a.capacity := by
        rw [hsize, hcapacity]
        decide
      have hput : put build usersz none v (some items) = put build usersz (some a) v (some items) := by
        simp only [put, Option.isNone_none, Option.isNone_some, Bool.false_eq_true, if_true, if_false, hcreate, bind,
          Except.bind, pure, Except.pure]
      rw [hput, show toList none = toList (some a) from hempty.symm]
      refine put_some husersz (sound_some (by omega) ?_) fun hfull => absurd hfull hnotFull
      exact Nat.le_of_eq (by rw [hcapacity, hroom])

omit husersz in
/-- An array shrinks into a part of its block, and stays as it is without one. -/
theorem reduce_ok {a : HeapArray T} (answer : Option (Nat → T)) (hne : a.size ≠ 0) (hsize : a.size ≤ a.capacity)
    (hroom : sizeofArray + usersz * a.capacity ≤ a.room) :
    ∃ a', a.reduce usersz answer = .ok (some a') ∧ a'.size = a.size - 1
      ∧ (∀ i < a.size - 1, a'.items i = a.items i) ∧ Sound usersz (some a') := by
  have hlt := a.room_lt
  unfold reduce
  rw [if_neg hne]
  dsimp only
  by_cases hshrink : a.size - 1 = a.capacity / 2 ∧ 4 < a.capacity
  · rw [if_pos hshrink]
    have hhalf := Nat.mul_le_mul_left usersz (Nat.div_le_self a.capacity 2)
    cases answer with
    | none =>
        refine ⟨_, rfl, rfl, fun _ _ => rfl, sound_some ?_ ?_⟩
        · exact Nat.le_of_eq hshrink.1
        · exact Nat.le_trans (Nat.add_le_add_left hhalf _) hroom
    | some fresh =>
        have hfits : sizeofArray + usersz * (a.capacity / 2) < 2 ^ 64 := by omega
        obtain ⟨a', hmoved, hsize', hcapacity', hroom', hitems⟩ :=
          moved_ok (a := { a with size := a.size - 1, capacity := a.capacity / 2 }) fresh hfits
        have hsize' : a'.size = a.size - 1 := hsize'
        have hcapacity' : a'.capacity = a.capacity / 2 := hcapacity'
        refine ⟨a', ?_, hsize', ?_, sound_some ?_ ?_⟩
        · simp only [hmoved, bind, Except.bind, pure, Except.pure]
        · intro i hi
          have hle := Nat.mul_le_mul_left usersz (show i + 1 ≤ a.capacity by omega)
          exact hitems i (by dsimp only; omega) (Nat.le_trans (by omega) hroom)
        · exact Nat.le_of_eq (by rw [hsize', hcapacity', hshrink.1])
        · exact Nat.le_of_eq (by rw [hcapacity', hroom'])
  · rw [if_neg hshrink]
    exact ⟨_, rfl, rfl, fun _ _ => rfl, sound_some (by dsimp only; omega) hroom⟩

omit husersz in
theorem pop_some {a : HeapArray T} (answer : Option (Nat → T)) (ha : Sound usersz (some a)) (hne : a.size ≠ 0) :
    ∃ a' v, pop usersz (some a) answer = .ok (a', v)
      ∧ ArrayOp.Lists (toList (some a)) (.pop answer) (.pop v) (toList a') ∧ Sound usersz a' := by
  obtain ⟨hsize, hroom⟩ := ha a rfl
  obtain ⟨a', hreduce, hsize', hitems, hsound⟩ := reduce_ok answer hne hsize hroom
  have hback : a.back usersz = .ok (a.items (a.size - 1)) := if_pos ⟨hne, last_fits hsize hroom⟩
  have hlist : toList (some a) = toList (some a') ++ [a.items (a.size - 1)] := by
    rw [← hsize']
    exact toList_succ (by omega) fun i hi => (hitems i (by omega)).symm
  refine ⟨some a', a.items (a.size - 1), ?_, ?_, hsound⟩
  · simp only [pop, hback, hreduce, bind, Except.bind, pure, Except.pure]
  · rw [hlist]
    exact .pop _ _ answer

/-! ### A call -/

theorem step_ok {a : Option (HeapArray T)} {op : ArrayOp T} (ha : Sound usersz a) (hne : Nonempty a op)
    (h : Granted build usersz a op) :
    ∃ a' reply, step build usersz a op = .ok (a', reply) ∧ ArrayOp.Lists (toList a) op reply (toList a')
      ∧ Sound usersz a' := by
  cases op with
  | put v answer =>
      have hput : ∃ a' stored, put build usersz a v answer = .ok (a', stored)
          ∧ ArrayOp.Lists (toList a) (.put v answer) (.put stored) (toList a') ∧ Sound usersz a' := by
        cases a with
        | none => exact put_none husersz h
        | some a => exact put_some husersz ha h
      obtain ⟨a', stored, hput, hlist, hsound⟩ := hput
      exact ⟨a', .put stored, by simp only [step, hput, bind, Except.bind, pure, Except.pure], hlist, hsound⟩
  | pop answer =>
      cases a with
      | none => exact absurd rfl hne
      | some a =>
          have hsize : a.size ≠ 0 := by
            intro hzero
            exact hne (by rw [toList_some, hzero]; rfl)
          obtain ⟨a', v, hpop, hlist, hsound⟩ := pop_some answer ha hsize
          exact ⟨a', .pop v, by simp only [step, hpop, bind, Except.bind, pure, Except.pure], hlist, hsound⟩
  | clear =>
      cases a with
      | none => exact ⟨none, .clear, rfl, .clear _, sound_none⟩
      | some a =>
          obtain ⟨-, hroom⟩ := ha a rfl
          exact ⟨some { a with size := 0 }, .clear, rfl, .clear _, sound_some (Nat.zero_le _) hroom⟩

/-- The header of a full array counts on the doubled capacity afterwards. -/
theorem doubled_of_sound {a a' : HeapArray T} (ha : Sound usersz (some a)) (ha' : Sound usersz (some a'))
    (hfull : a.size = a.capacity) (hsize : a.size ≤ a'.size)
    (hcapacity : a'.capacity = if a.capacity = 0 then 1 else a.capacity * 2 % 2 ^ 64) :
    sizeofArray + usersz * a.doubled ≤ a'.room := by
  obtain ⟨-, hroom⟩ := ha a rfl
  obtain ⟨hsize', hroom'⟩ := ha' a' rfl
  have hlt := capacity_lt husersz hroom
  have hlt' := a.room_lt
  suffices hdouble : a'.capacity = a.doubled by rwa [hdouble] at hroom'
  unfold doubled
  split at hcapacity
  · next hzero => rw [hcapacity, if_pos hzero]
  · next hne =>
    rw [hcapacity, if_neg hne]
    omega

omit husersz in
theorem putBack_shape {a a' : HeapArray T} {v : T} (h : a.putBack usersz v = .ok a') :
    a'.size = a.size ∧ a'.capacity = a.capacity ∧ a'.room = a.room := by
  unfold putBack at h
  split at h
  · cases h
    exact ⟨rfl, rfl, rfl⟩
  · cases h

omit husersz in
theorem moved_shape {a a' : HeapArray T} {fresh : Nat → T} (h : a.moved usersz fresh = .ok a') :
    a'.size = a.size ∧ a'.capacity = a.capacity := by
  unfold moved at h
  dsimp only at h
  split at h
  · cases h
    exact ⟨rfl, rfl⟩
  · cases h

theorem granted_full {a : HeapArray T} {a' : Option (HeapArray T)} {v : T} {answer : Option (Nat → T)} {stored : Bool}
    (ha : Sound usersz (some a)) (hfull : a.size = a.capacity)
    (h : put build usersz (some a) v answer = .ok (a', stored)) (ha' : Sound usersz a') :
    Granted build usersz (some a) (.put v answer) := by
  have hcapacity := capacity_lt husersz (ha a rfl).2
  have hlt := a.room_lt
  obtain ⟨a₀, hcreate, h⟩ := bind_eq_ok.mp h
  cases hcreate
  obtain ⟨⟨a₁, raised⟩, hraise, h⟩ := bind_eq_ok.mp h
  simp only [raise, if_pos hfull] at hraise
  cases answer with
  | none =>
      cases hraise
      cases h
      have hroom := @doubled_of_sound T usersz husersz a ⟨a.room, a.room_lt, a.size, _, a.items⟩ ha ha' hfull
        (Nat.le_refl _) rfl
      exact fun _ => hroom
  | some fresh =>
      obtain ⟨a₂, hmoved, hraise⟩ := bind_eq_ok.mp hraise
      cases hraise
      obtain ⟨a₃, hput, h⟩ := bind_eq_ok.mp h
      cases h
      obtain ⟨hsize₂, hcapacity₂⟩ := moved_shape hmoved
      obtain ⟨hsize₃, hcapacity₃, -⟩ := putBack_shape hput
      dsimp only at hsize₂ hcapacity₂ hsize₃ hcapacity₃
      intro _
      have hroom := doubled_of_sound husersz ha ha' hfull (by rw [hsize₃, hsize₂]; omega) (hcapacity₃.trans hcapacity₂)
      exact Nat.lt_of_le_of_lt hroom a₃.room_lt

omit husersz in
theorem granted_none {a' : Option (HeapArray T)} {v : T} {answer : Option (Nat → T)} {stored : Bool}
    (h : put build usersz none v answer = .ok (a', stored)) (ha' : Sound usersz a') :
    Granted build usersz none (.put v answer) := by
  obtain ⟨a₀, hcreate, h⟩ := bind_eq_ok.mp h
  obtain ⟨⟨a₁, raised⟩, hraise, h⟩ := bind_eq_ok.mp h
  cases answer with
  | none =>
      cases hcreate
      cases build with
      | release => rfl
      | debug => cases hraise
  | some items =>
      simp only [create] at hcreate
      split at hcreate
      · cases hcreate
        have hnotFull : ¬ 0 = arrayDefaultCapacity := by decide
        simp only [raise, if_neg hnotFull] at hraise
        cases hraise
        obtain ⟨a₃, hput, h⟩ := bind_eq_ok.mp h
        cases h
        obtain ⟨-, hcapacity₃, hroom₃⟩ := putBack_shape hput
        obtain ⟨-, hroom⟩ := ha' a₃ rfl
        rw [hcapacity₃] at hroom
        exact Nat.lt_of_le_of_lt hroom a₃.room_lt
      · cases hcreate

/-- A call that keeps the array sound was given what it needs. -/
theorem granted_of_sound {a a' : Option (HeapArray T)} {op : ArrayOp T} {reply : ArrayReply T}
    (ha : Sound usersz a) (h : step build usersz a op = .ok (a', reply)) (ha' : Sound usersz a') :
    Granted build usersz a op := by
  cases op with
  | put v answer =>
      obtain ⟨⟨a₁, stored⟩, hput, h⟩ := bind_eq_ok.mp h
      cases h
      cases a with
      | none => exact granted_none hput ha'
      | some a =>
          by_cases hfull : a.size = a.capacity
          · exact granted_full husersz ha hfull hput ha'
          · cases answer with
            | none => exact fun h => absurd h hfull
            | some fresh => exact fun h => absurd h hfull
  | pop answer => trivial
  | clear => trivial

/-! ### Runs -/

omit husersz in
theorem along_append_left {P : Option (HeapArray T) → ArrayOp T → Prop} {a : Option (HeapArray T)}
    {left right : List (ArrayOp T)} (h : Machine.Along (step build usersz) P a (left ++ right)) :
    Machine.Along (step build usersz) P a left := by
  intro before op after a' hist hsplit hexec
  exact h before op (after ++ right) a' hist (by rw [hsplit, List.append_assoc]; rfl) hexec

/-- **Failed allocations.** The array is the list of the elements that were put and stored, and its block has room
for its capacity, all through a run exactly if no put leaves the header counting on more room than there is. -/
theorem tracks_iff {a : Option (HeapArray T)} (ha : Sound usersz a) (ops : List (ArrayOp T))
    (hne : Machine.Along (step build usersz) Nonempty a ops) :
    Tracks build usersz a ops ↔ Machine.Along (step build usersz) (Granted build usersz) a ops := by
  constructor
  · intro htracks before op after a₁ hist hsplit hexec
    obtain ⟨a', hist', hexec', -, hsound⟩ := htracks before (op :: after) hsplit
    rw [hexec] at hexec'
    cases hexec'
    obtain ⟨a₂, hist₂, hexec₂, -, hsound₂⟩ := htracks (before ++ [op]) after (by rw [hsplit, List.append_assoc]; rfl)
    obtain ⟨a₃, left, right, hleft, hright, rfl⟩ := Machine.exec_append_eq_ok hexec₂
    rw [hexec] at hleft
    cases hleft
    obtain ⟨a₄, reply, rest, hstep, hrest, -⟩ := Machine.exec_cons_eq_ok.mp hright
    cases hrest
    exact granted_of_sound husersz hsound hstep hsound₂
  · rintro hgranted before after rfl
    have hsteps : Machine.Along (step build usersz) (fun a op => Nonempty a op ∧ Granted build usersz a op) a before :=
      fun first op rest a' hist hsplit hexec =>
        ⟨along_append_left hne first op rest a' hist hsplit hexec,
          along_append_left hgranted first op rest a' hist hsplit hexec⟩
    obtain ⟨a', hist, l, hexec, hfollows, hsound, rfl⟩ := Machine.exec_follows
      (fun a l => Sound usersz a ∧ toList a = l) (fun a op => Nonempty a op ∧ Granted build usersz a op)
      (fun a l op hrel hop => by
        obtain ⟨hsound, rfl⟩ := hrel
        obtain ⟨a', reply, hstep, hlist, hsound'⟩ := step_ok husersz hsound hop.1 hop.2
        exact ⟨a', reply, toList a', hstep, hlist, hsound', rfl⟩) ⟨ha, rfl⟩ hsteps
    exact ⟨a', hist, hexec, hfollows, hsound⟩

end

/-- An array of one element with room for two: the allocator refuses the growth for the second put, which stores
nothing, and the third put goes where the room is. -/
theorem tracks_refused_put :
    Tracks .release 8 (some ⟨40, by decide, 0, 1, fun _ => 0⟩) [.put 10 none, .put 20 none, .put 30 none] := by
  have hsound : Sound 8 (some (⟨40, by decide, 0, 1, fun _ => 0⟩ : HeapArray Nat)) := by
    rintro a ha
    cases ha
    decide
  have hne : Machine.Along (step .release 8) Nonempty (some ⟨40, by decide, 0, 1, fun _ => 0⟩)
      [.put 10 none, .put 20 none, .put 30 none] :=
    (Machine.along_cons rfl).mpr ⟨trivial, (Machine.along_cons rfl).mpr
      ⟨trivial, (Machine.along_cons rfl).mpr ⟨trivial, Machine.along_nil _ _⟩⟩⟩
  have hfirst : step .release 8 (some (⟨40, by decide, 0, 1, fun _ => 0⟩ : HeapArray Nat)) (.put 10 none)
      = .ok (some ⟨40, _, 1, 1, _⟩, .put true) := rfl
  have hgranted : Machine.Along (step .release 8) (Granted .release 8) (some ⟨40, by decide, 0, 1, fun _ => 0⟩)
      [.put 10 none, .put 20 none, .put 30 none] := by
    rw [Machine.along_cons hfirst]
    refine ⟨fun hfull => absurd hfull (by decide), ?_⟩
    have hsecond (items : Nat → Nat) : step .release 8 (some ⟨40, by decide, 1, 1, items⟩) (.put 20 none)
        = .ok (some ⟨40, by decide, 1, 2, items⟩, .put false) := rfl
    rw [Machine.along_cons (hsecond _)]
    refine ⟨fun _ => by decide, (Machine.along_cons rfl).mpr ⟨?_, Machine.along_nil _ _⟩⟩
    exact fun hfull => absurd hfull (by decide)
  exact (tracks_iff (by decide) hsound _ hne).mpr hgranted

/-- Three puts into an array of one element where the allocator refuses the second: the header then counts on two
elements, and the third put writes behind the block. -/
theorem not_tracks_refused :
    ∃ a, create 8 1 (some fun _ => 0) = .ok (some a)
      ∧ ¬ Tracks .release 8 (some a) [.put 10 none, .put 20 none, .put 30 none] := by
  refine ⟨_, rfl, fun htracks => ?_⟩
  obtain ⟨a', hist, hexec, -, -⟩ := htracks [.put 10 none, .put 20 none, .put 30 none] [] rfl
  have hfault : Machine.exec (step .release 8) (some ⟨32, by decide, 0, 1, fun _ => 0⟩)
      [.put 10 none, .put 20 none, .put 30 none] = .error .outOfBounds := rfl
  cases hfault.symm.trans hexec

end HeapArray

end Scroller

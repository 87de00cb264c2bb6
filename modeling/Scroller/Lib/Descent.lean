import Mathlib.Order.Filter.AtTopBot.Basic

/-!
# Recursive descent

Parsers that read tokens from the front of a list and put out nodes on their way. They end behind a sentence or at a
token that is out of place. A language is a relation between the tokens of a sentence and the nodes put for it.
-/

namespace Descent

open Filter

universe u v w

variable {T : Type u} {N : Type v}

/-- The tokens that are left, and what was put out. -/
structure State (T N : Type*) where
  tokens : List T
  out : List N

/-- A parser stops in front of a token, or it runs out of fuel. -/
inductive Halt (T N : Type*) where
  | misplaced (s : State T N)
  | diverges

abbrev Parser (T N : Type*) := State T N → Except (Halt T N) (State T N)

namespace State

def put (s : State T N) (nodes : List N) : State T N := { s with out := s.out ++ nodes }

def shift (s : State T N) : State T N := { s with tokens := s.tokens.tail }

/-- Shifts one token that has to come. -/
def expect [DecidableEq T] (token : T) : Parser T N := fun s =>
  if s.tokens.head? = some token then .ok s.shift else .error (.misplaced s)

end State

/-- Items with a separator between them. -/
def list [DecidableEq T] (separator : T) (item : Parser T N) : Nat → Parser T N
  | 0, _ => .error .diverges
  | fuel + 1, s => do
      let s ← item s
      if s.tokens.head? = some separator then list separator item fuel s.shift else return s

/-- The rest of a list of operands with operators between them. The node of an operator is put in front of its right
operand. -/
def operators (op? : T → Option N) (operand : Parser T N) : Nat → Parser T N
  | 0, _ => .error .diverges
  | fuel + 1, s =>
      match s.tokens.head?.bind op? with
      | some node => do
          let s ← operand (s.shift.put [node])
          operators op? operand fuel s
      | none => return s

/-! ### More fuel -/

/-- The second result is the first one, unless that one ran out of fuel. -/
def Below {A : Type w} (r r' : Except (Halt T N) A) : Prop := r ≠ .error .diverges → r' = r

def Extends (p q : Parser T N) : Prop := ∀ s, Below (p s) (q s)

theorem Below.refl {A : Type w} (r : Except (Halt T N) A) : Below r r := fun _ => rfl

theorem Below.bind {A B : Type w} {r r' : Except (Halt T N) A} {f g : A → Except (Halt T N) B} (h : Below r r')
    (hfg : ∀ a, Below (f a) (g a)) : Below (r >>= f) (r' >>= g) := by
  intro hne
  have hr : r ≠ .error .diverges := by
    rintro rfl
    exact hne rfl
  rw [h hr]
  cases r with
  | error halt => rfl
  | ok a => exact hfg a hne

section Fuel

variable [DecidableEq T] {item item' : Parser T N} {fuel fuel' : Nat}

theorem list_extends (separator : T) (h : Extends item item') (hfuel : fuel ≤ fuel') :
    Extends (list separator item fuel) (list separator item' fuel') := by
  induction fuel generalizing fuel' with
  | zero => exact fun s hne => absurd rfl hne
  | succ fuel ih =>
      obtain ⟨fuel', rfl⟩ := Nat.exists_eq_add_of_le' (Nat.le_trans (Nat.le_add_left 1 fuel) hfuel)
      intro s
      refine (h s).bind fun s => ?_
      split
      · exact ih (Nat.le_of_succ_le_succ hfuel) _
      · exact .refl _

omit [DecidableEq T] in
theorem operators_extends (op? : T → Option N) (h : Extends item item') (hfuel : fuel ≤ fuel') :
    Extends (operators op? item fuel) (operators op? item' fuel') := by
  induction fuel generalizing fuel' with
  | zero => exact fun s hne => absurd rfl hne
  | succ fuel ih =>
      obtain ⟨fuel', rfl⟩ := Nat.exists_eq_add_of_le' (Nat.le_trans (Nat.le_add_left 1 fuel) hfuel)
      intro s
      rw [operators, operators]
      split
      · exact (h _).bind (ih (Nat.le_of_succ_le_succ hfuel))
      · exact .refl _

end Fuel

/-! ### What a parser reads -/

/-- From one state to the other these tokens were read and these nodes were put. -/
structure Moves (s s' : State T N) (ts : List T) (ns : List N) : Prop where
  tokens : s.tokens = ts ++ s'.tokens
  out : s'.out = s.out ++ ns

theorem Moves.refl (s : State T N) : Moves s s [] [] := ⟨rfl, (List.append_nil _).symm⟩

theorem Moves.trans {s s' s'' : State T N} {ts ts' : List T} {ns ns' : List N} (h : Moves s s' ts ns)
    (h' : Moves s' s'' ts' ns') : Moves s s'' (ts ++ ts') (ns ++ ns') where
  tokens := by rw [h.tokens, h'.tokens, List.append_assoc]
  out := by rw [h'.out, h.out, List.append_assoc]

theorem Moves.shift {s : State T N} {t : T} (h : s.tokens.head? = some t) : Moves s s.shift [t] [] where
  tokens := by
    obtain ⟨ts, hts⟩ := List.head?_eq_some_iff.mp h
    rw [State.shift, hts]
    rfl
  out := (List.append_nil _).symm

theorem Moves.put (s : State T N) (nodes : List N) : Moves s (s.put nodes) [] nodes := ⟨rfl, rfl⟩

theorem Moves.then_put {s s' : State T N} {ts : List T} {ns : List N} (h : Moves s s' ts ns) (nodes : List N) :
    Moves s (s'.put nodes) ts (ns ++ nodes) where
  tokens := h.tokens
  out := by rw [State.put, h.out, List.append_assoc]

theorem Moves.length {s s' : State T N} {ts : List T} {ns : List N} (h : Moves s s' ts ns) :
    s.tokens.length = ts.length + s'.tokens.length := by rw [h.tokens, List.length_append]

/-- How a parser may end that was given enough fuel: behind a sentence of the language, or at a token with no `stop` in
front of it. -/
def Spec (stop : T) (L : List T → List N → Prop) (enough : Prop) (s : State T N) :
    Except (Halt T N) (State T N) → Prop
  | .ok s' => ∃ ts ns, Moves s s' ts ns ∧ stop ∉ ts ∧ L ts ns
  | .error (.misplaced s') => ∃ ts ns, Moves s s' ts ns ∧ stop ∉ ts
  | .error .diverges => ¬ enough

section Spec

variable {stop : T} {L M R : List T → List N → Prop} {enough enough' : Prop} {s s₁ : State T N}
  {r : Except (Halt T N) (State T N)} {ts : List T} {ns : List N}

theorem Spec.imp (h : Spec stop L enough s r) (hL : ∀ ts ns, L ts ns → M ts ns) (he : enough' → enough) :
    Spec stop M enough' s r := by
  match r, h with
  | .ok s', ⟨ts, ns, hmoves, hstop, hl⟩ => exact ⟨ts, ns, hmoves, hstop, hL ts ns hl⟩
  | .error (.misplaced s'), h => exact h
  | .error .diverges, h => exact fun h' => h (he h')

/-- A parser that goes on in a later state. -/
theorem Spec.behind (h : Spec stop L enough s₁ r) (hmoves : Moves s s₁ ts ns) (hstop : stop ∉ ts)
    (hL : ∀ ts' ns', L ts' ns' → M (ts ++ ts') (ns ++ ns')) : Spec stop M enough s r := by
  have hnot : ∀ {ts' : List T}, stop ∉ ts' → stop ∉ ts ++ ts' := fun h' hmem =>
    (List.mem_append.mp hmem).elim hstop h'
  match r, h with
  | .ok s', ⟨ts', ns', hmoves', hstop', hl⟩ => exact ⟨_, _, hmoves.trans hmoves', hnot hstop', hL ts' ns' hl⟩
  | .error (.misplaced s'), ⟨ts', ns', hmoves', hstop'⟩ => exact ⟨_, _, hmoves.trans hmoves', hnot hstop'⟩
  | .error .diverges, h => exact h

theorem Spec.bind {f : Parser T N} (h : Spec stop L enough' s r) (he : enough → enough')
    (hf : ∀ s' ts ns, Moves s s' ts ns → stop ∉ ts → L ts ns → Spec stop M enough s (f s')) :
    Spec stop M enough s (r >>= f) := by
  match r, h with
  | .ok s', ⟨ts, ns, hmoves, hstop, hl⟩ => exact hf s' ts ns hmoves hstop hl
  | .error (.misplaced s'), h => exact h
  | .error .diverges, h => exact fun h' => h (he h')

/-- What comes after something that was read. -/
theorem Spec.next {f : Parser T N} (h : Spec stop L enough s₁ r) (hmoves : Moves s s₁ ts ns) (hstop : stop ∉ ts)
    (hf : ∀ s' ts' ns', Moves s s' (ts ++ ts') (ns ++ ns') → stop ∉ ts ++ ts' → L ts' ns' →
      Spec stop M enough s (f s')) : Spec stop M enough s (r >>= f) := by
  have hread : Spec stop (fun ts'' ns'' => ∃ ts' ns', ts'' = ts ++ ts' ∧ ns'' = ns ++ ns' ∧ L ts' ns') enough s r :=
    h.behind hmoves hstop fun ts' ns' hl => ⟨ts', ns', rfl, rfl, hl⟩
  refine hread.bind id ?_
  rintro s' _ _ hmoves' hstop' ⟨ts', ns', rfl, rfl, hl⟩
  exact hf s' ts' ns' hmoves' hstop' hl

theorem Spec.done (hmoves : Moves s s₁ ts ns) (hstop : stop ∉ ts) (hl : L ts ns) :
    Spec stop L enough s (.ok s₁) := ⟨ts, ns, hmoves, hstop, hl⟩

theorem Spec.misplaced (hmoves : Moves s s₁ ts ns) (hstop : stop ∉ ts) :
    Spec stop L enough s (.error (.misplaced s₁)) := ⟨ts, ns, hmoves, hstop⟩

/-- The sentences of the members of a type. -/
def Of {I : Type*} (tokens : I → List T) (nodes : I → List N) (ts : List T) (ns : List N) : Prop :=
  ∃ x, ts = tokens x ∧ ns = nodes x

/-- Sentences with a separator between them. -/
inductive ListOf (separator : T) (L : List T → List N → Prop) : List T → List N → Prop where
  | one {ts : List T} {ns : List N} (h : L ts ns) : ListOf separator L ts ns
  | cons {ts ts' : List T} {ns ns' : List N} (h : L ts ns) (hrest : ListOf separator L ts' ns') :
      ListOf separator L (ts ++ separator :: ts') (ns ++ ns')

theorem ListOf.of {I : Type*} {tokens : I → List T} {nodes : I → List N} {separator : T}
    (h : ListOf separator (Of tokens nodes) ts ns) : ∃ (x : I) (xs : List I),
      ts = tokens x ++ (xs.flatMap fun x => separator :: tokens x) ∧ ns = nodes x ++ xs.flatMap nodes := by
  induction h with
  | one h =>
      obtain ⟨x, rfl, rfl⟩ := h
      exact ⟨x, [], (List.append_nil _).symm, (List.append_nil _).symm⟩
  | cons h _ ih =>
      obtain ⟨x, rfl, rfl⟩ := h
      obtain ⟨y, ys, rfl, rfl⟩ := ih
      exact ⟨x, y :: ys, rfl, rfl⟩

variable [DecidableEq T] {separator token : T} {item : Parser T N} {fuel : Nat}

theorem expect_spec (htoken : token ≠ stop) (s : State T N) :
    Spec stop (fun ts ns => ts = [token] ∧ ns = []) enough s (s.expect token) := by
  rw [State.expect]
  split
  · next hhead => exact .done (.shift hhead) (List.mem_singleton.not.mpr htoken.symm) ⟨rfl, rfl⟩
  · exact .misplaced (.refl s) List.not_mem_nil

theorem list_spec (hseparator : separator ≠ stop)
    (hitem : ∀ s' : State T N, s'.tokens.length ≤ s.tokens.length → Spec stop L enough s' (item s'))
    (hfuel : enough → s.tokens.length < fuel) :
    Spec stop (ListOf separator L) enough s (list separator item fuel s) := by
  induction fuel generalizing s with
  | zero => exact fun h => Nat.not_lt_zero _ (hfuel h)
  | succ fuel ih =>
      rw [list]
      refine (hitem s (Nat.le_refl _)).bind id fun s' ts ns hmoves hstop hl => ?_
      have hlength := hmoves.length
      split
      · next hhead =>
        have hshift := hmoves.trans (.shift hhead)
        have hshorter := hshift.length
        rw [List.length_append, List.length_singleton] at hshorter
        rw [List.append_nil] at hshift
        refine (ih (fun s'' hle => hitem s'' (by omega)) fun h => ?_).behind hshift ?_ ?_
        · have := hfuel h
          omega
        · rw [List.mem_append, List.mem_singleton]
          exact fun hmem => hmem.elim hstop hseparator.symm
        · intro ts' ns' hrest
          rw [List.append_assoc]
          exact .cons hl hrest
      · exact .done hmoves hstop (.one hl)

omit [DecidableEq T] in
/-- The loop behind a first operand, which the language has with everything that the loop appends. -/
theorem operators_spec {op? : T → Option N} (hop : op? stop = none)
    (hitem : ∀ s' : State T N, s'.tokens.length < s.tokens.length → Spec stop R enough s' (item s'))
    (hL : ∀ ts ns t node ts' ns', L ts ns → op? t = some node → R ts' ns' → L (ts ++ t :: ts') (ns ++ node :: ns'))
    (hmoves : Moves s s₁ ts ns) (hstop : stop ∉ ts) (hl : L ts ns) (hfuel : enough → s₁.tokens.length < fuel) :
    Spec stop L enough s (operators op? item fuel s₁) := by
  induction fuel generalizing s₁ ts ns with
  | zero => exact fun h => Nat.not_lt_zero _ (hfuel h)
  | succ fuel ih =>
      rw [operators]
      split
      · next node hnode =>
        obtain ⟨t, hhead, hnode⟩ := Option.bind_eq_some_iff.mp hnode
        have ht : stop ≠ t := by
          rintro rfl
          rw [hop] at hnode
          cases hnode
        have hput : Moves s₁ (s₁.shift.put [node]) [t] [node] := (Moves.shift hhead).trans (.put _ _)
        have hlength := hmoves.length
        have hshorter := hput.length
        rw [List.length_singleton] at hshorter
        have hitem' := hitem (s₁.shift.put [node]) (by omega)
        have hnot : stop ∉ ts ++ [t] := by
          rw [List.mem_append, List.mem_singleton]
          exact fun hmem => hmem.elim hstop ht
        have hread : Spec stop (fun ts' ns' => ∃ ts'' ns'', ts' = ts ++ t :: ts'' ∧ ns' = ns ++ node :: ns''
            ∧ R ts'' ns'') enough s (item (s₁.shift.put [node])) := by
          refine hitem'.behind (hmoves.trans hput) hnot fun ts'' ns'' hr => ⟨ts'', ns'', ?_, ?_, hr⟩
          · rw [List.append_assoc]
            rfl
          · rw [List.append_assoc]
            rfl
        refine hread.bind id ?_
        rintro s₂ _ _ hmoves₂ hstop₂ ⟨ts'', ns'', rfl, rfl, hr⟩
        refine ih hmoves₂ hstop₂ (hL ts ns t node ts'' ns'' hl hnode hr) fun h => ?_
        have hlength₂ := hmoves₂.length
        rw [List.length_append, List.length_cons] at hlength₂
        have := hfuel h
        omega
      · exact .done hmoves hstop hl

end Spec

/-! ### What a parser has to read -/

/-- With enough fuel a parser reads these tokens and puts these nodes, wherever `follow` holds of what comes next. -/
def Consumes (p : Nat → Parser T N) (follow : Option T → Prop) (ts : List T) (ns : List N) : Prop :=
  ∀ rest out, follow rest.head? → ∀ᶠ fuel in atTop, p fuel ⟨ts ++ rest, out⟩ = .ok ⟨rest, out ++ ns⟩

theorem eventually_succ {P : Nat → Prop} (h : ∀ᶠ fuel in atTop, P (fuel + 1)) : ∀ᶠ fuel in atTop, P fuel := by
  rw [← map_add_atTop_eq_nat 1]
  exact h

section Consumes

variable {p q : Nat → Parser T N} {follow follow' : Option T → Prop} {ts ts' : List T} {ns ns' : List N}

theorem Consumes.imp (h : Consumes p follow ts ns) (hfollow : ∀ t, follow' t → follow t) : Consumes p follow' ts ns :=
  fun rest out ht => h rest out (hfollow _ ht)

/-- One parser behind the other. -/
theorem Consumes.then (h : Consumes p follow ts ns) (h' : Consumes q follow' ts' ns')
    (hfollow : ∀ rest : List T, follow' rest.head? → follow (ts' ++ rest).head?) :
    Consumes (fun fuel s => p fuel s >>= q fuel) follow' (ts ++ ts') (ns ++ ns') := by
  intro rest out ht
  filter_upwards [h (ts' ++ rest) out (hfollow rest ht), h' rest (out ++ ns) ht] with fuel hp hq
  rw [List.append_assoc, hp, ← List.append_assoc]
  exact hq

theorem operators_op {op? : T → Option N} {t : T} {node : N} (hop : op? t = some node) (operand : Parser T N)
    (fuel : Nat) (rest : List T) (out : List N) :
    operators op? operand (fuel + 1) ⟨t :: rest, out⟩
      = operand ⟨rest, out ++ [node]⟩ >>= operators op? operand fuel := by
  have hbind : (State.mk (t :: rest) out).tokens.head?.bind op? = some node := hop
  rw [operators, hbind]
  rfl

theorem operators_stop {op? : T → Option N} {s : State T N} (hop : s.tokens.head?.bind op? = none)
    (operand : Parser T N) (fuel : Nat) : operators op? operand (fuel + 1) s = .ok s := by
  rw [operators, hop]
  rfl

theorem list_reads [DecidableEq T] {I : Type*} (separator : T) (tokens : I → List T) (nodes : I → List N)
    (hseparator : follow (some separator)) (hitem : ∀ x, Consumes p follow (tokens x) (nodes x)) (x : I) (xs : List I) :
    Consumes (fun fuel => list separator (p fuel) fuel) (fun t => follow t ∧ t ≠ some separator)
      (tokens x ++ xs.flatMap fun x => separator :: tokens x) (nodes x ++ xs.flatMap nodes) := by
  intro rest out hfollow
  have hall : ∀ᶠ k in atTop, ∀ fuel, xs.length < fuel → list separator (p k) fuel
      ⟨tokens x ++ (xs.flatMap fun x => separator :: tokens x) ++ rest, out⟩
        = .ok ⟨rest, out ++ (nodes x ++ xs.flatMap nodes)⟩ := by
    induction xs generalizing x out with
    | nil =>
        filter_upwards [hitem x rest out hfollow.1] with k hk fuel hfuel
        obtain ⟨fuel, rfl⟩ := Nat.exists_eq_add_one_of_ne_zero (Nat.ne_zero_of_lt hfuel)
        rw [list, List.flatMap_nil, List.append_nil, hk]
        refine (if_neg hfollow.2).trans ?_
        rw [List.flatMap_nil, List.append_nil]
        rfl
    | cons y ys ih =>
        have hfirst := hitem x (separator :: (tokens y ++ (ys.flatMap fun x => separator :: tokens x) ++ rest)) out
          hseparator
        filter_upwards [hfirst, ih y (out ++ nodes x)] with k hk hrest fuel hfuel
        obtain ⟨fuel, rfl⟩ := Nat.exists_eq_add_one_of_ne_zero (Nat.ne_zero_of_lt hfuel)
        have htext : tokens x ++ ((y :: ys).flatMap fun x => separator :: tokens x) ++ rest
            = tokens x ++ separator :: (tokens y ++ (ys.flatMap fun x => separator :: tokens x) ++ rest) := by
          rw [List.flatMap_cons]
          simp only [List.append_assoc, List.cons_append]
        rw [list, htext, hk]
        refine (if_pos rfl).trans ((hrest fuel (Nat.lt_of_succ_lt_succ hfuel)).trans ?_)
        rw [List.flatMap_cons, List.append_assoc]
  filter_upwards [hall, eventually_gt_atTop xs.length] with k hk hlength
  exact hk k hlength

/-- Where a parser does not run out of fuel it reads what it reads with more of it. -/
theorem eq_of_eventually {s s' : State T N} (hextends : ∀ k k', k ≤ k' → Extends (p k) (p k')) {fuel : Nat}
    (hfuel : p fuel s ≠ .error .diverges) (h : ∀ᶠ k in atTop, p k s = .ok s') : p fuel s = .ok s' := by
  obtain ⟨k, hk, hle⟩ := (h.and (eventually_ge_atTop fuel)).exists
  rw [← hk]
  exact (hextends fuel k hle s hfuel).symm

end Consumes

end Descent

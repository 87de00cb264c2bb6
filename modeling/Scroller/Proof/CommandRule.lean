import Scroller.Proof.BytecodeLoop
import Scroller.Proof.CommandOutcome

/-!
# A rule for commands

What holds after a command follows from what each action of `execute.y` does: a command runs one action on the
database it was given, and a `DELETE` or `SELECT` goes on with the rows of its table.
-/

namespace Scroller.Execute

open Outcome

/-! ### Tokens -/

namespace BcItor

variable {cfg : Config} {fuel : Nat} {db : Db} {tokens : List BcNode} {bc bc' : BcItor} {x : BcNode}

theorem deliver_mem {i : Nat} (h : bc.deliver tokens i = .ok (bc', some x)) : x ∈ tokens := by
  unfold deliver at h
  split at h
  · cases h
  · rename_i hi
    cases h
    exact List.mem_of_getElem? hi

theorem deliverOrEnd_mem {i : Nat} (h : bc.deliverOrEnd tokens i = .ok (bc', some x)) : x ∈ tokens := by
  unfold deliverOrEnd at h
  split at h
  · cases h
  · exact deliver_mem h

theorem y2lex_mem (h : y2lex cfg fuel db tokens bc = .ok (bc', some x)) : x ∈ tokens := by
  unfold y2lex at h
  split at h
  · split at h
    · exact deliverOrEnd_mem h
    · exact deliverOrEnd_mem h
  · split at h
    · cases h
    · obtain ⟨t, -, h⟩ := bind_eq_ok.mp h
      split at h
      · exact deliver_mem h
      · exact deliverOrEnd_mem h
  · exact deliverOrEnd_mem h

end BcItor

theorem prepareStep_mem {tokens : List BcNode} {s s' : List BcNode × List Nat} {i : Nat}
    (hs : ∀ x ∈ s.1, x ∈ tokens ∨ isLoop x = true) (h : prepareStep s i = .ok s') :
    ∀ x ∈ s'.1, x ∈ tokens ∨ isLoop x = true := by
  unfold prepareStep at h
  split at h
  · split at h
    · cases h
    · cases h
      exact hs
  · split at h
    · cases h
    · cases h
      intro x hx
      rcases List.mem_or_eq_of_mem_set hx with hx | rfl
      · rcases List.mem_or_eq_of_mem_set hx with hx | rfl
        · exact hs x hx
        · exact Or.inr rfl
      · exact Or.inr rfl
  · cases h
    exact hs

theorem foldlM_prepareStep_mem {tokens : List BcNode} {is : List Nat} {s s' : List BcNode × List Nat}
    (hs : ∀ x ∈ s.1, x ∈ tokens ∨ isLoop x = true) (h : is.foldlM prepareStep s = .ok s') :
    ∀ x ∈ s'.1, x ∈ tokens ∨ isLoop x = true := by
  induction is generalizing s with
  | nil =>
      cases h
      exact hs
  | cons i is ih =>
      rw [List.foldlM_cons] at h
      obtain ⟨s₁, hstep, h⟩ := bind_eq_ok.mp h
      exact ih (prepareStep_mem hs hstep) h

/-- `bc_prepare` changes loop tokens only. -/
theorem bcPrepare_mem {tokens prepared : List BcNode} (h : bcPrepare tokens = .ok prepared) :
    ∀ x ∈ prepared, x ∈ tokens ∨ isLoop x = true := by
  obtain ⟨s, hfold, h⟩ := bind_eq_ok.mp h
  cases h
  exact foldlM_prepareStep_mem (fun x hx => Or.inl hx) hfold

/-- A contract that only says something of the state, of iterators and of tokens is kept where steps of an iterator
keep to it. -/
theorem Contract.kept_of_open {c : Contract} {cfg : Config} {fuel : Nat} {tokens : List BcNode}
    (hlexer : ∀ db bc, c.lexer db bc) (hdatum : ∀ d, c.datum d) (hfault : ∀ fault, c.fault fault)
    (htoken : ∀ x ∈ tokens, c.token x)
    (hnext : ∀ db session t t', c.state db session → c.titor db (some t) → titorNext cfg fuel db t = .ok t' →
      c.titor db (some t')) : c.Kept cfg fuel tokens where
  diverges := hfault _
  lex db session bc _ _ := by
    refine ensures_iff.mpr ⟨fun r hr => ⟨hlexer _ _, fun x hx => htoken x ?_⟩, fun _ _ fault _ => hfault fault⟩
    obtain ⟨bc', token⟩ := r
    cases hx
    exact BcItor.y2lex_mem hr
  value _ _ _ _ _ _ _ := (Ensures.trivial _).mono (fun d _ => hdatum d) fun _ _ fault _ => hfault fault
  reduce _ n _ _ := by
    refine (Ensures.trivial _).mono (fun v _ => ?_) fun _ _ fault _ => hfault fault
    cases n with
    | or | and | not | cmp => exact True.intro
    | additive | multiplicative | atom => exact hdatum v
  next db session t hstate ht :=
    ensures_iff.mpr ⟨fun t' ht' => hnext db session t t' hstate ht ht', fun fault _ => hfault fault⟩

/-! ### Commands -/

/-- What every command has to lead to: `b` holds in front of it and knows of no iterator, `c` holds behind it. -/
structure Contract.Leads (b c : Contract) (cfg : Config) (fuel : Nat) (tokens : List BcNode)
    (leftover : Option Tran) : Prop where
  before : b.Kept cfg fuel tokens
  after : c.Kept cfg fuel tokens
  idle : ∀ {db titor}, b.titor db titor → titor = none
  none : ∀ db, c.titor db none
  lexer : ∀ db bc, c.lexer db bc
  token : ∀ {x}, b.token x → c.token x
  fault : ∀ fault, c.fault fault
  start : ∀ {db session}, b.state db session → c.state db session
  createUser : ∀ {db db' session name status}, b.state db session →
    createUser cfg db name = .ok (db', status) → c.state db' session
  createCatalog : ∀ {db db' session name status}, b.token .catalog → b.state db session →
    createCatalog cfg db name = .ok (db', status) → c.state db' session
  createSchema : ∀ {db db' session name status}, b.state db session →
    createSchema cfg db session name = .ok (db', status) → c.state db' session
  createTable : ∀ {db db' session schema name columns status}, b.state db session →
    (∀ decl ∈ columns, b.token (.type decl.type)) →
    createTable cfg db session schema name columns .mvcc = .ok (db', status) → c.state db' session
  tclStart : ∀ {db ts session session' status}, b.state db session →
    tclStart cfg db.trans session = .ok (ts, session', status) → c.state { db with trans := ts } session'
  tclCommit : ∀ {db ts session session' status}, b.token .commit → b.state db session →
    tclCommit cfg db.trans session = .ok (ts, session', status) → c.state { db with trans := ts } session'
  tclRollback : ∀ {db ts session session' status}, b.state db session →
    tclRollback cfg db.trans session = .ok (ts, session', status) → c.state { db with trans := ts } session'
  insert : ∀ {db db' session session' schema table names values status row}, b.state db session →
    insert cfg db session schema table names values .mvcc leftover = .ok (db', session', status, row) →
    c.state db' session'
  dmlDelete : ∀ {db db' session session' schema table status titor}, b.state db session →
    dmlDelete cfg fuel db session schema table = .ok (db', session', status, titor) →
    c.state db' session' ∧ c.titor db' titor
  dmlSelect : ∀ {db db' session session' schema table names status titor}, b.state db session →
    dmlSelect cfg fuel db session schema table names = .ok (db', session', status, titor) →
    c.state db' session' ∧ c.titor db' titor
  deleteRow : ∀ {db db' session t}, c.state db session → c.titor db (some t) → titorIsValid db t = true →
    dmlDeleteRow cfg session db t.m = .ok db' →
    c.state db' session ∧ ∀ titor, c.titor db titor → c.titor db' titor

namespace Contract.Leads

variable {b c : Contract} {cfg : Config} {fuel : Nat} {tokens : List BcNode} {leftover : Option Tran} {s : Y2}
  (h : b.Leads c cfg fuel tokens leftover)
include h

theorem acted (hs : b.Holds s) {s' : Y2} (hstate : c.state s'.db s'.session) (htitor : c.titor s'.db s'.titor)
    (hlook : s'.look.yychar = s.look.yychar) : c.Holds s' :=
  ⟨hstate, htitor, ⟨h.lexer _ _, fun x hx => h.token (hs.look.ahead x (hlook ▸ hx))⟩⟩

theorem titor_none (hs : b.Holds s) (db : Db) : c.titor db s.titor := h.idle hs.titor ▸ h.none db

theorem started (hs : b.Holds s) : c.Holds s := h.acted hs (h.start hs.state) (h.titor_none hs _) rfl

theorem reply {x : Except Fault (Db × Session × ScrcStatus)} (hs : b.Holds s)
    (hx : ∀ r, x = .ok r → c.state r.1 r.2.1) : Ensures c.Holds c.halt (s.reply x) := by
  have hx : Ensures (fun r => c.state r.1 r.2.1) c.fault x := ensures_iff.mpr ⟨hx, fun fault _ => h.fault fault⟩
  apply (Contract.perform hx).bind
  intro r hr
  exact ensures_ok (h.acted hs hr (h.titor_none hs _) rfl)

theorem replyDb {x : Except Fault (Db × ScrcStatus)} (hs : b.Holds s)
    (hx : ∀ r, x = .ok r → c.state r.1 s.session) : Ensures c.Holds c.halt (s.replyDb x) := by
  have hx : Ensures (fun r => c.state r.1 s.session) c.fault x :=
    ensures_iff.mpr ⟨hx, fun fault _ => h.fault fault⟩
  apply (Contract.perform hx).bind
  intro r hr
  exact ensures_ok (h.acted hs hr (h.titor_none hs _) rfl)

theorem replyTran {x : Except Fault (TranState × Session × ScrcStatus)} (hs : b.Holds s)
    (hx : ∀ r, x = .ok r → c.state { s.db with trans := r.1 } r.2.1) :
    Ensures c.Holds c.halt (s.replyTran x) := by
  have hx : Ensures (fun r => c.state { s.db with trans := r.1 } r.2.1) c.fault x :=
    ensures_iff.mpr ⟨hx, fun fault _ => h.fault fault⟩
  apply (Contract.perform hx).bind
  intro r hr
  exact ensures_ok (h.acted hs hr (h.titor_none hs _) rfl)

theorem halted {α : Type} {x : Except Halt α} {Q : α → Prop} (hx : Ensures Q b.halt x) :
    Ensures Q c.halt x := by
  refine hx.mono (fun _ hq => hq) fun halt hhalt => ?_
  cases halt with
  | abort w => exact h.start hhalt
  | fault fault => exact h.fault fault

theorem create (hs : b.Holds s) : Ensures c.Holds c.halt (s.create cfg fuel tokens) := by
  have hkept := h.before
  apply (h.halted (hkept.peek hs)).bind
  rintro ⟨s, ahead⟩ ⟨hs, hahead⟩
  dsimp only at hs hahead ⊢
  split
  · apply (h.halted (hkept.string hs.shift)).bind
    rintro ⟨s, name⟩ hs
    exact h.replyDb hs fun r hr => h.createUser hs.state hr
  · have htoken := hahead _ rfl
    apply (h.halted (hkept.string hs.shift)).bind
    rintro ⟨s, name⟩ hs
    exact h.replyDb hs fun r hr => h.createCatalog htoken hs.state hr
  · apply (h.halted (hkept.string hs.shift)).bind
    rintro ⟨s, name⟩ hs
    exact h.replyDb hs fun r hr => h.createSchema hs.state hr
  · apply (h.halted (hkept.string hs.shift)).bind
    rintro ⟨s, schema⟩ hs
    apply (h.halted (hkept.string hs)).bind
    rintro ⟨s, name⟩ hs
    apply (h.halted (hkept.expect hs .arrayBegin)).bind
    intro s hs
    apply (h.halted (hkept.decls hs)).bind
    rintro ⟨s, columns⟩ ⟨hs, hcolumns⟩
    apply Ensures.ite
    · exact fun _ => h.halted hs.syntaxError
    · intro _
      apply (h.halted (hkept.expect hs .arrayEnd)).bind
      intro s hs
      exact h.replyDb hs fun r hr => h.createTable hs.state hcolumns hr
  · exact h.halted hs.syntaxError

theorem insertRule (hs : b.Holds s) : Ensures c.Holds c.halt (s.insertRule cfg fuel tokens leftover) := by
  have hkept := h.before
  apply (h.halted (hkept.string hs)).bind
  rintro ⟨s, schema⟩ hs
  apply (h.halted (hkept.string hs)).bind
  rintro ⟨s, table⟩ hs
  apply (h.halted (hkept.stringArray hs)).bind
  rintro ⟨s, names⟩ hs
  apply (h.halted (hkept.valueArray hs)).bind
  rintro ⟨s, values⟩ hs
  refine h.reply hs fun r hr => ?_
  obtain ⟨⟨db, session, status, m⟩, hinsert, hr⟩ := bind_eq_ok.mp hr
  cases hr
  exact h.insert hs.state hinsert

theorem keptBy_deleteRow : c.KeptBy (Y2.deleteRow cfg) := by
  intro w t hstate ht hvalid
  refine ensures_iff.mpr ⟨fun w' hw' => ?_, fun fault _ => h.fault fault⟩
  obtain ⟨db, hdelete, hw'⟩ := bind_eq_ok.mp hw'
  cases hw'
  obtain ⟨hstate', htitors⟩ := h.deleteRow hstate ht hvalid hdelete
  exact ⟨hstate', htitors, fun bc _ => h.lexer _ bc⟩

theorem keptBy_sendRow : c.KeptBy (Y2.sendRow cfg) := by
  intro w t hstate _ _
  refine ensures_iff.mpr ⟨fun w' hw' => ?_, fun fault _ => h.fault fault⟩
  obtain ⟨piece, -, hw'⟩ := bind_eq_ok.mp hw'
  cases hw'
  exact ⟨hstate, fun _ hu => hu, fun bc _ => h.lexer _ bc⟩

theorem mbWhere {act : Titor → Work → Except Fault Work} (hact : c.KeptBy act) {moves : Bool} {pieces : List Piece}
    (hs : c.Holds s) : Ensures c.Holds c.halt (do
      let s ← s.mbWhere cfg fuel tokens act moves
      return s.send pieces) := by
  apply (h.after.mbWhere hact hs).bind
  intro s hs
  exact ensures_ok (hs.send pieces)

theorem deleteRule (hs : b.Holds s) : Ensures c.Holds c.halt (s.deleteRule cfg fuel tokens) := by
  have hkept := h.before
  apply (h.halted (hkept.string hs)).bind
  rintro ⟨s, schema⟩ hs
  apply (h.halted (hkept.string hs)).bind
  rintro ⟨s, table⟩ hs
  have hopen : Ensures (fun r => c.state r.1 r.2.1 ∧ c.titor r.1 r.2.2.2) c.fault
      (Scroller.dmlDelete cfg fuel s.db s.session schema table) :=
    ensures_iff.mpr ⟨fun r hr => h.dmlDelete hs.state hr, fun fault _ => h.fault fault⟩
  apply (Contract.perform hopen).bind
  rintro ⟨db, session, status, row⟩ ⟨hstate, hrow⟩
  dsimp only
  split
  · exact h.mbWhere h.keptBy_deleteRow (h.acted hs hstate hrow rfl)
  · exact h.mbWhere h.keptBy_deleteRow (h.acted hs hstate (h.titor_none hs _) rfl)

theorem selectRule (hs : b.Holds s) : Ensures c.Holds c.halt (s.selectRule cfg fuel tokens) := by
  have hkept := h.before
  apply (h.halted (hkept.stringArray hs)).bind
  rintro ⟨s, names⟩ hs
  apply (h.halted (hkept.string hs)).bind
  rintro ⟨s, schema⟩ hs
  apply (h.halted (hkept.string hs)).bind
  rintro ⟨s, table⟩ hs
  have hopen : Ensures (fun r => c.state r.1 r.2.1 ∧ c.titor r.1 r.2.2.2) c.fault
      (Scroller.dmlSelect cfg fuel s.db s.session schema table names) :=
    ensures_iff.mpr ⟨fun r hr => h.dmlSelect hs.state hr, fun fault _ => h.fault fault⟩
  apply (Contract.perform hopen).bind
  rintro ⟨db, session, status, row⟩ ⟨hstate, hrow⟩
  dsimp only
  split
  · have hbody : Ensures (fun _ => True) c.fault (Y2.openBody cfg db row) :=
      (Ensures.trivial _).mono (fun _ _ => True.intro) fun fault _ => h.fault fault
    apply (Contract.perform hbody).bind
    intro pieces _
    exact h.mbWhere h.keptBy_sendRow (h.acted hs hstate hrow rfl)
  · exact h.mbWhere h.keptBy_sendRow (h.acted hs hstate (h.titor_none hs _) rfl)

theorem cmd (hs : b.Holds s) : Ensures c.Holds c.halt (s.cmd cfg fuel tokens leftover) := by
  apply (h.halted (h.before.peek hs)).bind
  rintro ⟨s, ahead⟩ ⟨hs, hahead⟩
  have hs' := hs.shift
  dsimp only at hahead ⊢
  split
  · exact h.create hs'
  · exact h.replyTran hs' fun r hr => h.tclStart hs.state hr
  · exact h.replyTran hs' fun r hr => h.tclCommit (hahead _ rfl) hs.state hr
  · exact h.replyTran hs' fun r hr => h.tclRollback hs.state hr
  · exact h.insertRule hs'
  · exact h.deleteRule hs'
  · exact h.selectRule hs'
  · exact h.halted hs.syntaxError

end Contract.Leads

/-- **The rule of commands.** -/
theorem executeCmd_leads {cfg : Config} {fuel : Nat} {leftover : Option Tran} {db : Db} {session : Session}
    {tokens : Option (List BcNode)} {done : Executed} {b c : Contract}
    (h : ∀ toks prepared, tokens = some toks → (∀ x ∈ prepared, x ∈ toks ∨ isLoop x = true) →
      b.Leads c cfg fuel prepared leftover)
    (hstart : tokens ≠ none → b.Holds (Y2.init db session))
    (hdone : executeCmd cfg fuel leftover db session tokens = .ok done) : c.state done.db done.session := by
  unfold executeCmd at hdone
  split at hdone
  · cases hdone
  next toks =>
    have hinit := hstart nofun
    split at hdone
    · cases hdone
      exact (h toks [] rfl nofun).start hinit.state
    next prepared hprepared =>
      have hleads := h toks prepared rfl (bcPrepare_mem hprepared)
      have hparse : Ensures c.Holds c.halt ((Y2.init db session).parse cfg fuel prepared leftover) := by
        apply (hleads.cmd hinit).bind
        intro s hs
        apply (hleads.after.peek hs).bind
        intro r hr
        apply Ensures.ite
        · exact fun _ => ensures_ok hr.1
        · exact fun _ => hr.1.syntaxError
      split at hdone
      next s hs =>
        cases hdone
        exact (hparse.of_ok hs).state
      next w hw =>
        cases hdone
        exact hparse.of_error hw
      · cases hdone

end Scroller.Execute

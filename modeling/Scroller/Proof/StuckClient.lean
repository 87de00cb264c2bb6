import Scroller.Proof.ScriptRequests

/-!
# The interactive client behind an error

`scrc_query` does nothing where the connection has a status, and nothing sets the status back: behind the first query that
fails the interactive client reads on, and answers every other query with the same status.
-/

namespace Scroller

open ScrcConnection

namespace ScrcConnection

variable {conn conn' : ScrcConnection}

theorem recvRefill_status (conn : ScrcConnection) : conn.recvRefill.1.status = conn.status := by
  have hcompact : conn.compact.status = conn.status := by
    rw [compact]
    split <;> rfl
  rw [recvRefill]
  split <;> exact hcompact

theorem recvBlockLoop_status {size fuel : Nat} {r : Except UInt32 Unit}
    (hloop : recvBlockLoop size fuel conn = .ok (conn', r)) : conn'.status = conn.status := by
  induction fuel generalizing conn with
  | zero =>
      rw [recvBlockLoop] at hloop
      split at hloop <;> cases hloop
      rfl
  | succ fuel ih =>
      rw [recvBlockLoop] at hloop
      split at hloop
      · have hrefill := recvRefill_status conn
        cases hr : conn.recvRefill with
        | mk conn₁ r₁ =>
            rw [hr] at hloop hrefill
            cases r₁ with
            | error ret =>
                cases hloop
                exact hrefill
            | ok _ => exact (ih hloop).trans hrefill
      · cases hloop
        rfl

theorem recvBlock_status {size : Nat} {r : Except UInt32 Nat} (hblock : conn.recvBlock size = .ok (conn', r)) :
    conn'.status = conn.status := by
  unfold recvBlock at hblock
  split at hblock
  · cases hblock
    rfl
  · obtain ⟨⟨conn₁, r₁⟩, hloop, hblock⟩ := bind_eq_ok.mp hblock
    have hstatus := recvBlockLoop_status hloop
    cases r₁ <;> cases hblock <;> exact hstatus

theorem headerLineLoop_status {room start : Nat} {name : Option Nat} {r : Except UInt32 HeaderLine}
    (hloop : headerLineLoop room conn start name = .ok (conn', r)) : conn'.status = conn.status := by
  induction room generalizing conn start name with
  | zero =>
      cases hloop
      rfl
  | succ room ih =>
      obtain ⟨⟨conn₁, r₁⟩, hblock, hloop⟩ := bind_eq_ok.mp hloop
      have hstatus := recvBlock_status hblock
      cases r₁ with
      | error ret =>
          cases hloop
          exact hstatus
      | ok p =>
          dsimp only at hloop
          split at hloop
          · obtain ⟨⟨rbuf, src⟩, -, hloop⟩ := bind_eq_ok.mp hloop
            exact (ih hloop).trans hstatus
          · split at hloop
            · obtain ⟨⟨rbuf, src⟩, -, hloop⟩ := bind_eq_ok.mp hloop
              cases name <;> cases hloop <;> exact hstatus
            · exact (ih hloop).trans hstatus

theorem headerLoop_status {fuel : Nat} {status : UInt32} (hloop : headerLoop fuel conn = .ok (conn', status)) :
    conn'.status = conn.status := by
  induction fuel generalizing conn with
  | zero => cases hloop
  | succ fuel ih =>
      obtain ⟨⟨conn₁, r₁⟩, hline, hloop⟩ := bind_eq_ok.mp hloop
      have hstatus : conn₁.status = conn.status := by
        obtain ⟨⟨conn₂, r₂⟩, hblock, hline⟩ := bind_eq_ok.mp hline
        have hstatus₂ := recvBlock_status hblock
        cases r₂ with
        | error ret =>
            cases hline
            exact hstatus₂
        | ok start =>
            dsimp only at hline
            split at hline
            · cases hline
              exact hstatus₂
            · exact (headerLineLoop_status hline).trans hstatus₂
      cases r₁ with
      | error ret =>
          cases hloop
          exact hstatus
      | ok hl =>
          obtain ⟨name, -, hloop⟩ := bind_eq_ok.mp hloop
          obtain ⟨value, -, hloop⟩ := bind_eq_ok.mp hloop
          cases hstep : headerStep name value conn₁.body with
          | error ret =>
              rw [hstep] at hloop
              cases hloop
              exact hstatus
          | ok body =>
              rw [hstep] at hloop
              exact (ih hloop).trans hstatus

theorem recvTable_status {status : UInt32} (htable : conn.recvTable = .ok (conn', status)) : conn'.status = status := by
  obtain ⟨⟨conn₁, r₁⟩, -, htable⟩ := bind_eq_ok.mp htable
  cases r₁ with
  | error ret =>
      cases htable
      rfl
  | ok cmd =>
      dsimp only at htable
      split at htable
      · cases htable
        rfl
      · obtain ⟨⟨conn₂, r₂⟩, -, htable⟩ := bind_eq_ok.mp htable
        cases r₂ with
        | error ret =>
            cases htable
            rfl
        | ok _ =>
            obtain ⟨⟨conn₃, r₃⟩, -, htable⟩ := bind_eq_ok.mp htable
            cases r₃ with
            | error ret =>
                cases htable
                rfl
            | ok cmd₃ =>
                dsimp only at htable
                split at htable <;> cases htable <;> rfl

/-- A query leaves its status in the connection. -/
theorem scrcQuery_status {query : List UInt8} {sent status : UInt32}
    (hquery : conn.scrcQuery (some query) sent = .ok (conn', status)) : conn'.status = status := by
  unfold scrcQuery at hquery
  split at hquery
  · cases hquery
    rfl
  · next hstatus =>
    dsimp only at hquery
    generalize (if query = [] then scrcOk else sent) = ret at hquery
    split at hquery
    · cases hquery
      rfl
    · obtain ⟨⟨conn₁, ret₁⟩, hheader, hquery⟩ := bind_eq_ok.mp hquery
      dsimp only at hquery
      split at hquery
      · cases hquery
        rfl
      · next hret =>
        split at hquery
        · cases hquery
          -- nothing in front of the body sets the status
          rw [not_not] at hstatus hret
          exact ((headerLoop_status hheader).trans hstatus).trans hret.symm
        · exact recvTable_status hquery

theorem scrcFetchRow_status {status : UInt32} {row : Option (Option (Nat × Nat))}
    (hfetch : conn.scrcFetchRow = .ok (conn', status, row)) : conn'.status = status := by
  unfold scrcFetchRow at hfetch
  split at hfetch
  · cases hfetch
    rfl
  · obtain ⟨⟨conn₁, r₁⟩, -, hfetch⟩ := bind_eq_ok.mp hfetch
    cases r₁ <;> cases hfetch <;> rfl

theorem printRows_status {fuel : Nat} {status : UInt32} {rows : List (List (List UInt8))}
    (hprint : printRows fuel conn = .ok (conn', status, rows)) : conn'.status = status := by
  induction fuel generalizing conn rows with
  | zero => cases hprint
  | succ fuel ih =>
      obtain ⟨⟨conn₁, status₁, row⟩, hfetch, hprint⟩ := bind_eq_ok.mp hprint
      have hfirst := scrcFetchRow_status hfetch
      cases row with
      | none =>
          cases hprint
          exact hfirst
      | some row =>
          cases row with
          | none =>
              cases hprint
              exact hfirst
          | some row =>
              dsimp only at hprint
              split at hprint
              · cases hprint
                exact hfirst
              · obtain ⟨⟨conn₂, cells⟩, -, hprint⟩ := bind_eq_ok.mp hprint
                obtain ⟨⟨conn₃, status₃, rows₃⟩, hrest, hprint⟩ := bind_eq_ok.mp hprint
                cases hprint
                exact ih hrest

end ScrcConnection

/-- The status of a query that has failed, or whose response has ended early. -/
def Printed.failed : Printed → Option UInt32
  | .table _ _ status => if status = scrcOk then none else some status
  | .error status => some status
  | .ok | .tooLarge => none

/-- Something is printed for a query. -/
def Printed.ofQuery : Printed → Bool
  | .tooLarge => false
  | _ => true

namespace Console

variable {stack : Nat → UInt8} {c c' : Console} {query : CStr}

/-- What a query prints. A failure stays in the connection. -/
theorem ask_printed {r : Except UInt32 UInt32} (hask : c.ask stack query = .ok (c', r)) :
    ∃ p, c'.printed = c.printed ++ [p] ∧ p.ofQuery = true ∧ (∀ status, r = .error status → p.failed = some status)
      ∧ (∀ status, p.failed = some status → c'.conn.status = status ∧ status ≠ scrcOk)
      ∧ (p.failed = none → c'.conn.status = scrcOk) := by
  obtain ⟨⟨sockfd, sent⟩, -, hask⟩ := bind_eq_ok.mp hask
  obtain ⟨⟨conn, status⟩, hquery, hask⟩ := bind_eq_ok.mp hask
  dsimp only at hask
  split at hask
  · next hstatus =>
    cases hask
    have hconn := scrcQuery_status hquery
    refine ⟨_, rfl, rfl, fun status' hr => ?_, fun status' hp => ?_, nofun⟩
    · cases hr
      rw [hconn]
      rfl
    · cases hp
      exact ⟨rfl, hconn ▸ hstatus⟩
  · next hstatus =>
    split at hask
    · obtain ⟨⟨conn₁, status₁, rows⟩, hprint, hask⟩ := bind_eq_ok.mp hask
      cases hask
      have hprinted := printRows_status hprint
      refine ⟨_, rfl, rfl, nofun, fun status' hp => ?_, fun hp => ?_⟩
      all_goals
        rw [Printed.failed] at hp
        split at hp
      · cases hp
      · next hfailed =>
        cases hp
        exact ⟨hprinted, hfailed⟩
      · next hok => exact hprinted.trans hok
      · cases hp
    · cases hask
      exact ⟨.ok, rfl, rfl, nofun, nofun, fun _ => (scrcQuery_status hquery).trans (not_not.mp hstatus)⟩

/-- A connection with a status is left as it is. -/
theorem ask_stuck (stack : Nat → UInt8) (query : CStr) (h : c.conn.status ≠ scrcOk) :
    c.ask stack query = .ok (c.print (.error c.conn.status), .error c.conn.status) := by
  have hsend : c.send stack query = .ok (c.sockfd, scrcOk) := if_pos h
  have hquery : c.conn.scrcQuery (some query.bytes) scrcOk = .ok (c.conn, c.conn.status) := if_pos h
  rw [ask, hsend]
  simp only [bind, Except.bind, hquery]
  rw [if_pos h]
  rfl

/-- What an interactive run has printed and sent: a query has gone out for each answer without a failure, and one for the
first failure. Behind it every other query has its status, and no query goes out. -/
structure Interacts (stack : Nat → UInt8) (c c' : Console) (text : List UInt8) (answered stuck : List Printed)
    (asked : List CStr) : Prop where
  printed : c'.printed = c.printed ++ (answered ++ stuck)
  answers : ∀ p ∈ answered, p.failed = none
  written : c'.sockfd.written = c.sockfd.written ++ asked.flatMap (queryBlock stack)
  fromText : (asked.flatMap CStr.bytes).Sublist text
  ends : stuck = [] ∧ asked.length = answered.countP Printed.ofQuery
    ∨ ∃ p rest, stuck = p :: rest ∧ p.failed = some c'.conn.status ∧ c'.conn.status ≠ scrcOk
      ∧ (∀ p' ∈ rest, p' = .error c'.conn.status ∨ p' = .tooLarge)
      ∧ asked.length = answered.countP Printed.ofQuery + 1

theorem Interacts.text {text text' : List UInt8} {answered stuck : List Printed} {asked : List CStr}
    (h : Interacts stack c c' text answered stuck asked) (htext : text.Sublist text') :
    Interacts stack c c' text' answered stuck asked := ⟨h.printed, h.answers, h.written, h.fromText.trans htext, h.ends⟩

theorem Interacts.done (stack : Nat → UInt8) (c : Console) (text : List UInt8) : Interacts stack c c text [] [] [] where
  printed := (List.append_nil _).symm
  answers _ hp := absurd hp List.not_mem_nil
  written := (List.append_nil _).symm
  fromText := List.nil_sublist _
  ends := .inl ⟨rfl, rfl⟩

/-- The loop on a connection with a status. -/
theorem interactiveLoop_stuck {lines : List (List UInt8)} {st : LineState} {status status' : UInt32}
    (h : c.conn.status ≠ scrcOk) (hrun : c.interactiveLoop stack lines query st status = .ok (c', status')) :
    c'.conn = c.conn ∧ c'.sockfd = c.sockfd
      ∧ ∃ rest, c'.printed = c.printed ++ rest ∧ ∀ p ∈ rest, p = .error c.conn.status ∨ p = .tooLarge := by
  induction lines generalizing c query st status with
  | nil =>
      cases hrun
      exact ⟨rfl, rfl, [], (List.append_nil _).symm, nofun⟩
  | cons line lines ih =>
      have hprint : ∀ {query : CStr} {st : LineState} {status : UInt32} {p : Printed},
          (p = .error c.conn.status ∨ p = .tooLarge) →
          (c.print p).interactiveLoop stack lines query st status = .ok (c', status') →
          c'.conn = c.conn ∧ c'.sockfd = c.sockfd
            ∧ ∃ rest, c'.printed = c.printed ++ rest ∧ ∀ p ∈ rest, p = .error c.conn.status ∨ p = .tooLarge := by
        intro query st status p hp hrun
        obtain ⟨hconn, hsockfd, rest, hprinted, hrest⟩ := @ih (c.print p) query st status h hrun
        refine ⟨hconn, hsockfd, p :: rest, ?_, List.forall_mem_cons.mpr ⟨hp, hrest⟩⟩
        rw [hprinted]
        exact List.append_assoc _ _ _
      rw [interactiveLoop] at hrun
      dsimp only at hrun
      split at hrun
      · cases hrun
        exact ⟨rfl, rfl, [], (List.append_nil _).symm, nofun⟩
      · split at hrun
        · exact hprint (.inr rfl) hrun
        · split at hrun
          · rw [ask_stuck stack _ h] at hrun
            exact hprint (.inl rfl) hrun
          · exact ih h hrun

theorem interactiveLoop_interacts {lines : List (List UInt8)} {st : LineState} {status status' : UInt32}
    (hstatus : c.conn.status = scrcOk) (hfailed : .failed ∉ c.sockfd.outcomes) (hlen : query.bytes.length < bufferSize)
    (hrun : c.interactiveLoop stack lines query st status = .ok (c', status')) :
    ∃ answered stuck asked, Interacts stack c c' (query.bytes ++ lines.flatten) answered stuck asked := by
  induction lines generalizing c query st status with
  | nil =>
      cases hrun
      exact ⟨[], [], [], .done stack _ _⟩
  | cons line lines ih =>
      have hline : (CStr.ofBuffer line).bytes.Sublist line := (List.takeWhile_prefix _).sublist
      have hempty : CStr.empty.bytes.length < bufferSize := by decide
      rw [interactiveLoop] at hrun
      dsimp only at hrun
      split at hrun
      · cases hrun
        exact ⟨[], [], [], .done stack _ _⟩
      · split at hrun
        · -- the query is too large
          obtain ⟨answered, stuck, asked, h⟩ := @ih (c.print .tooLarge) CStr.empty st status hstatus hfailed hempty hrun
          refine ⟨.tooLarge :: answered, stuck, asked, ?_, List.forall_mem_cons.mpr ⟨rfl, h.answers⟩, h.written, ?_, ?_⟩
          · rw [h.printed]
            exact List.append_assoc _ _ _
          · rw [List.flatten_cons]
            exact (h.fromText.trans (List.sublist_append_right _ _)).trans (List.sublist_append_right _ _)
          · rw [List.countP_cons_of_neg (by decide)]
            exact h.ends
        · next hsmall =>
          have hlen' : (query.append (CStr.ofBuffer line)).bytes.length < bufferSize := by
            change (query.bytes ++ (CStr.ofBuffer line).bytes).length < bufferSize
            rw [List.length_append]
            omega
          have htext : (query.append (CStr.ofBuffer line)).bytes.Sublist (query.bytes ++ line) :=
            (List.Sublist.refl query.bytes).append hline
          rw [List.flatten_cons, ← List.append_assoc]
          split at hrun
          · obtain ⟨⟨c₁, r⟩, hask, hrun⟩ := bind_eq_ok.mp hrun
            obtain ⟨hfailed₁, hwritten⟩ := ask_written hstatus hlen' hfailed hask
            obtain ⟨p, hprinted, hquery, -, hstuck, hgoes⟩ := ask_printed hask
            have hnext : ∃ status, c₁.interactiveLoop stack lines CStr.empty
                (lineHasSemicolon st (CStr.ofBuffer line).bytes).state status = .ok (c', status') := by
              cases r with
              | error status₁ => exact ⟨status₁, hrun⟩
              | ok status₁ => exact ⟨status₁, hrun⟩
            obtain ⟨status₁, hnext⟩ := hnext
            cases hp : p.failed with
            | none =>
                obtain ⟨answered, stuck, asked, h⟩ := ih (hgoes hp) hfailed₁ hempty hnext
                refine ⟨p :: answered, stuck, query.append (CStr.ofBuffer line) :: asked, ?_,
                  List.forall_mem_cons.mpr ⟨hp, h.answers⟩, ?_, ?_, ?_⟩
                · rw [h.printed, hprinted]
                  exact List.append_assoc _ _ _
                · rw [h.written, hwritten, List.append_assoc]
                  rfl
                · exact htext.append h.fromText
                · rw [List.countP_cons_of_pos hquery, List.length_cons]
                  exact h.ends.imp (fun ⟨hnil, hcount⟩ => ⟨hnil, congrArg (· + 1) hcount⟩)
                    fun ⟨p', rest, hcons, hp', hne, hrest, hcount⟩ =>
                      ⟨p', rest, hcons, hp', hne, hrest, congrArg (· + 1) hcount⟩
            | some status₂ =>
                obtain ⟨hconn₁, hne⟩ := hstuck status₂ hp
                obtain ⟨hconn, hsockfd, rest, hrest, hall⟩ := interactiveLoop_stuck (hconn₁ ▸ hne) hnext
                refine ⟨[], p :: rest, [query.append (CStr.ofBuffer line)], ?_, nofun, ?_, ?_,
                  .inr ⟨p, rest, rfl, ?_, ?_, ?_, rfl⟩⟩
                · rw [hrest, hprinted, List.append_assoc]
                  rfl
                · rw [hsockfd, hwritten, List.flatMap_singleton]
                · rw [List.flatMap_singleton]
                  exact htext.trans (List.sublist_append_left _ _)
                · rw [hp, hconn, hconn₁]
                · rw [hconn, hconn₁]
                  exact hne
                · rw [hconn]
                  exact hall
          · obtain ⟨answered, stuck, asked, h⟩ := ih hstatus hfailed hlen' hrun
            exact ⟨answered, stuck, asked, h.text (htext.append (List.Sublist.refl _))⟩

/-- **Behind an error.** An interactive run sends a query of its input for each answer without a failure. The first query
that fails is the last one that is sent: every other one is answered with its status. -/
theorem interactive_stuck (stack : Nat → UInt8) {c c' : Console} {text : List UInt8} {status : UInt32}
    (hstatus : c.conn.status = scrcOk) (hfailed : .failed ∉ c.sockfd.outcomes)
    (hrun : c.clientRunInteractive stack text = .ok (c', status)) :
    ∃ answered stuck asked, Interacts stack c c' text answered stuck asked := by
  have hinteracts := interactiveLoop_interacts hstatus hfailed (by decide) hrun
  rw [inputLines, flatten_fgetsLines] at hinteracts
  exact hinteracts

/-- The first query fails, and the second one is not sent. -/
theorem interactive_stuck_small : ∃ c' answered stuck asked,
    clientRunInteractive (fun _ => 0) ⟨fresh (fun _ => 1) [] (ascii "Status: 102\n$$\n"), ⟨[], []⟩, []⟩ (ascii "b;\nc;\n")
        = .ok (c', 102)
      ∧ c'.printed = [.error 102, .error 102]
      ∧ Interacts (fun _ => 0) ⟨fresh (fun _ => 1) [] (ascii "Status: 102\n$$\n"), ⟨[], []⟩, []⟩ c' (ascii "b;\nc;\n")
        answered stuck asked := by
  obtain ⟨c', hrun, hprinted⟩ : ∃ c', clientRunInteractive (fun _ => 0)
      ⟨fresh (fun _ => 1) [] (ascii "Status: 102\n$$\n"), ⟨[], []⟩, []⟩ (ascii "b;\nc;\n") = .ok (c', 102)
        ∧ c'.printed = [.error 102, .error 102] := ⟨_, rfl, rfl⟩
  obtain ⟨answered, stuck, asked, h⟩ := interactive_stuck (fun _ => 0) rfl List.not_mem_nil hrun
  exact ⟨c', answered, stuck, asked, hrun, hprinted, h⟩

end Console

end Scroller

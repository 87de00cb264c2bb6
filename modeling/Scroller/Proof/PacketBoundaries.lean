import Scroller.Proof.PlainHeaders

/-!
# Responses do not depend on packet boundaries

Two clients that read the same stream in different pieces get the same answers from the same calls, since both
get what the decoder reads off the stream.
-/

namespace Scroller

open ByteMemory

namespace Client

open ScrcConnection

/-- In every query of the run the header lines and the columns are read as they have to be. -/
def Kept : Client → List Call → Prop
  | _, [] => True
  | c, call :: calls =>
      (∀ query sent, call = .query query sent → c.conn.QueryKept query sent)
        ∧ ∀ c' reply, c.step call = .ok (c', reply) → Kept c' calls

/-- The client knows what the decoder knows. -/
def Agrees (c : Client) (d : Decoder) : Prop := c.conn.Agrees d ∧ d.fetched = c.row.isSome

theorem step_decodes {c : Client} {d : Decoder} (h : c.Agrees d) (call : Call)
    (hkept : ∀ query sent, call = .query query sent → c.conn.QueryKept query sent) :
    ∃ c', c.step call = .ok (c', (d.step call).2) ∧ c'.Agrees (d.step call).1 := by
  obtain ⟨hconn, hrow⟩ := h
  cases call with
  | query query sent =>
      obtain ⟨conn', hquery, hagrees⟩ := scrcQuery_decodes hconn query sent (hkept query sent rfl)
      refine ⟨{ c with conn := conn' }, ?_, hagrees, (fetched_query query sent).trans hrow⟩
      have hcolumns := hagrees.columns
      rw [step, hquery, Decoder.step]
      generalize d.query query sent = result at hcolumns
      simp only [bind, Except.bind, hcolumns]
      rfl
  | fetchRow =>
      obtain ⟨conn', row, hfetch, hagrees, hbytes, hfetched⟩ := scrcFetchRow_decodes hconn
      have hcolumns := hagrees.columns
      rw [step, hfetch, Decoder.step]
      generalize d.fetchRow = result at hcolumns hagrees hbytes hfetched
      refine ⟨_, by simp only [bind, Except.bind, hcolumns, ← hbytes]; rfl, hagrees, hfetched.trans ?_⟩
      cases row with
      | none => exact hrow
      | some row => cases row <;> rfl
  | fetchCell n =>
      obtain ⟨conn', cell, hfetch, hagrees, hcell, hfetched⟩ := scrcFetchCell_decodes hconn hrow n
      have hcolumns := hagrees.columns
      rw [step, hfetch, Decoder.step]
      generalize d.fetchCell n = result at hcolumns hagrees hcell hfetched
      exact ⟨{ c with conn := conn' }, by simp only [hcolumns, ← hcell]; rfl, hagrees,
        hfetched.trans hrow⟩

/-- **A run decodes the stream.** -/
theorem run_decodes {c : Client} {d : Decoder} (h : c.Agrees d) (calls : List Call)
    (hkept : c.Kept calls) :
    ∃ c', Machine.exec step c calls = .ok (c', (d.run calls).2) ∧ c'.Agrees (d.run calls).1 := by
  induction calls generalizing c d with
  | nil => exact ⟨c, rfl, h⟩
  | cons call calls ih =>
      obtain ⟨c₁, hstep, hagrees⟩ := step_decodes h call hkept.1
      obtain ⟨c', hexec, hagrees'⟩ := ih hagrees (hkept.2 c₁ _ hstep)
      exact ⟨c', Machine.exec_cons_eq_ok.mpr ⟨c₁, _, _, hstep, hexec, rfl⟩, hagrees'⟩

/-- A client that has just connected. -/
def connected (rbuf : Nat → UInt8) (outcomes : List Transfer) (stream : List UInt8) : Client :=
  ⟨.fresh rbuf outcomes stream, none⟩

theorem connected_agrees (rbuf : Nat → UInt8) {outcomes : List Transfer}
    (h : ∀ t ∈ outcomes, t.Succeeds) (stream : List UInt8) :
    (connected rbuf outcomes stream).Agrees ⟨scrcOk, [], false, stream, false⟩ :=
  ⟨⟨⟨⟨Nat.le_refl _, Nat.zero_le _⟩, h⟩, rfl, rfl, rfl, rfl⟩, rfl⟩

/-- The answers to the calls do not depend on how the stream is cut into pieces. -/
def SameAnswers (rbuf rbuf' : Nat → UInt8) (outcomes outcomes' : List Transfer)
    (stream : List UInt8) (calls : List Call) : Prop :=
  ∃ c c' hist, Machine.exec step (connected rbuf outcomes stream) calls = .ok (c, hist)
    ∧ Machine.exec step (connected rbuf' outcomes' stream) calls = .ok (c', hist)

/-- **Responses do not depend on packet boundaries** in runs that compact the buffer inside no header line
and are announced no column shorter than the struct. -/
theorem sameAnswers_of_kept (rbuf rbuf' : Nat → UInt8) {outcomes outcomes' : List Transfer}
    (houtcomes : ∀ t ∈ outcomes, t.Succeeds) (houtcomes' : ∀ t ∈ outcomes', t.Succeeds)
    (stream : List UInt8) (calls : List Call)
    (hkept : (connected rbuf outcomes stream).Kept calls)
    (hkept' : (connected rbuf' outcomes' stream).Kept calls) :
    SameAnswers rbuf rbuf' outcomes outcomes' stream calls := by
  obtain ⟨c, hexec, -⟩ := run_decodes (connected_agrees rbuf houtcomes stream) calls hkept
  obtain ⟨c', hexec', -⟩ := run_decodes (connected_agrees rbuf' houtcomes' stream) calls hkept'
  exact ⟨c, c', _, hexec, hexec'⟩

theorem kept_of_no_query (c : Client) (calls : List Call)
    (h : ∀ query sent, Call.query query sent ∉ calls) : c.Kept calls := by
  induction calls generalizing c with
  | nil => exact trivial
  | cons call calls ih =>
      refine ⟨fun query sent hcall => ?_, fun c' reply hstep => ?_⟩
      · exact absurd (hcall ▸ List.mem_cons_self) (h query sent)
      · exact ih c' fun query sent hmem => h query sent (List.mem_cons_of_mem call hmem)

/-- The response to a failed query, in two pieces and in one. -/
theorem sameAnswers_failed_query :
    SameAnswers (fun _ => 0) (fun _ => 1) [.moved 3] [] (ascii "Status: 104\n$$\n")
      [.query (some [1]) scrcOk, .fetchRow] := by
  have hkept : ∀ rbuf outcomes, (∀ t ∈ outcomes, Transfer.Succeeds t) →
      (connected rbuf outcomes (ascii "Status: 104\n$$\n")).Kept
        [.query (some [1]) scrcOk, .fetchRow] := by
    intro rbuf outcomes houtcomes
    refine ⟨fun query sent _ => ?_, fun c' reply _ => kept_of_no_query c' _ (by simp)⟩
    have hhealthy := (connected_agrees rbuf houtcomes (ascii "Status: 104\n$$\n")).1.healthy
    have hheader : PlainHeader 15 0 16 false (ascii "Status: 104\n$$\n") :=
      PlainHeader.line (by intro b hb; cases hb; decide) (by decide)
        (show Decoder.line _ = (.ok (ascii "Status", some (ascii "104")), ascii "$$\n") by rfl) rfl
        fun body' h => by cases h
    refine @queryKept_of_plain _ 15 0 (early_le (by decide)) hhealthy (Nat.le_refl 15) hheader ?_ query
      sent
    intro rest rest' hdecoded
    cases hdecoded
  exact sameAnswers_of_kept (fun _ => 0) (fun _ => 1) (by decide) (by decide) _ _ (hkept _ _ (by decide))
    (hkept _ _ (by decide))

/-! ### A header line across the compaction -/

/-- A client that has received the bytes in front of `arriving`. -/
def filled (rbuf : Nat → UInt8) (rlen : Nat) (arriving : List UInt8) : Client where
  conn :=
    { status := scrcOk, columns := [], rbuf, rlen, rpos := 0, body := false
      sockfd := ⟨[], arriving, [fullsz]⟩ }
  row := none

/-- The first `recv` of a query. -/
theorem step_connected {s₁ s₂ : List UInt8} {more : Nat} (hlen : s₁.length = more + 1)
    (hfull : s₁.length ≤ fullsz) (rbuf : Nat → UInt8) (b : UInt8) (query : List UInt8) :
    (connected rbuf [.moved more] (s₁ ++ s₂)).step (.query (some (b :: query)) scrcOk)
      = (filled (write rbuf 0 s₁) s₁.length s₂).step (.query (some (b :: query)) scrcOk) := by
  have hrecv : recvLoop fullsz (s₁ ++ s₂) [.moved more] []
      = (⟨[], s₂, [fullsz]⟩, .ok s₁) := by
    have hmin : min (more + 1) fullsz = s₁.length := by omega
    have hne : ¬ s₁ = [] := by
      intro hnil
      rw [hnil] at hlen
      cases hlen
    rw [recvLoop, hmin, recvBytes, List.take_left, List.drop_left, if_neg hne]
  have hrefill : (connected rbuf [.moved more] (s₁ ++ s₂)).conn.recvRefill
      = ((filled (write rbuf 0 s₁) s₁.length s₂).conn, .ok ()) := by
    have hcompact := @compact_of_le (connected rbuf [.moved more] (s₁ ++ s₂)).conn
      (Nat.zero_le bufsz)
    rw [recvRefill, hcompact]
    simp only [connected, fresh, Nat.sub_zero, hrecv]
    rw [Nat.zero_add]
    rfl
  have hblock : (connected rbuf [.moved more] (s₁ ++ s₂)).conn.recvBlock 1
      = (filled (write rbuf 0 s₁) s₁.length s₂).conn.recvBlock 1 := by
    have hfilled : ¬ (filled (write rbuf 0 s₁) s₁.length s₂).conn.rlen
        - (filled (write rbuf 0 s₁) s₁.length s₂).conn.rpos < 1 := by
      show ¬ s₁.length - 0 < 1
      omega
    have hempty : (connected rbuf [.moved more] (s₁ ++ s₂)).conn.rlen
        - (connected rbuf [.moved more] (s₁ ++ s₂)).conn.rpos < 1 := Nat.zero_lt_one
    have hloop : recvBlockLoop 1 1 (connected rbuf [.moved more] (s₁ ++ s₂)).conn
        = .ok ((filled (write rbuf 0 s₁) s₁.length s₂).conn, .ok ()) := by
      rw [recvBlockLoop, if_pos hempty, hrefill]
      exact if_neg hfilled
    have hloop' : recvBlockLoop 1 1 (filled (write rbuf 0 s₁) s₁.length s₂).conn
        = .ok ((filled (write rbuf 0 s₁) s₁.length s₂).conn, .ok ()) := if_neg hfilled
    have hone : ¬ bufsz < 1 := by decide
    rw [recvBlock, recvBlock, hloop, hloop', if_neg hone, if_neg hone]
  have hleft : (connected rbuf [.moved more] (s₁ ++ s₂)).conn.left
      = (filled (write rbuf 0 s₁) s₁.length s₂).conn.left := by
    show 0 + (s₁ ++ s₂).length = s₁.length - 0 + s₂.length
    rw [List.length_append]
    omega
  have hline : (connected rbuf [.moved more] (s₁ ++ s₂)).conn.recvHeaderLine
      = (filled (write rbuf 0 s₁) s₁.length s₂).conn.recvHeaderLine := by
    rw [recvHeaderLine, recvHeaderLine, hblock]
  have hheader : (connected rbuf [.moved more] (s₁ ++ s₂)).conn.recvHeader
      = (filled (write rbuf 0 s₁) s₁.length s₂).conn.recvHeader := by
    rw [recvHeader, recvHeader, hleft]
    show headerLoop (_ + 1) (connected rbuf [.moved more] (s₁ ++ s₂)).conn
      = headerLoop (_ + 1) (filled (write rbuf 0 s₁) s₁.length s₂).conn
    rw [headerLoop, headerLoop, hline]
  have hquery : (connected rbuf [.moved more] (s₁ ++ s₂)).conn.scrcQuery (some (b :: query)) scrcOk
      = (filled (write rbuf 0 s₁) s₁.length s₂).conn.scrcQuery (some (b :: query)) scrcOk := by
    change ((connected rbuf [.moved more] (s₁ ++ s₂)).conn.recvHeader >>= _) = _
    rw [hheader]
    rfl
  rw [step, step, hquery]
  rfl

/-- A response whose row fills the buffer up to `BUFSZ`, in front of the row. -/
def wideHead : List UInt8 :=
  ascii "Body: Yes\n$$\n" ++ LittleEndian.toBytes 4 1 ++ LittleEndian.toBytes 4 4
    ++ LittleEndian.toBytes 4 2 ++ LittleEndian.toBytes 4 3 ++ LittleEndian.toBytes 8 bufsz

/-- Its end, and the response to the next query. -/
def wideTail : List UInt8 := LittleEndian.toBytes 4 4 ++ ascii "Status: 104\n$$\n"

/-- The buffer behind the first `recv`. -/
def wideMemory (tail : List UInt8) : Nat → UInt8 := fun i =>
  if i < wideHead.length then wideHead.getD i 0
  else if i < wideHead.length + bufsz then 0
  else tail.getD (i - (wideHead.length + bufsz)) 0

theorem write_wide (tail : List UInt8) :
    write (fun _ => 0) 0 (wideHead ++ List.replicate bufsz 0 ++ tail) = wideMemory tail := by
  funext i
  rw [write, if_pos (Nat.zero_le i), Nat.sub_zero, wideMemory]
  by_cases hhead : i < wideHead.length
  · rw [if_pos hhead, List.append_assoc, List.getD_append _ _ _ _ hhead]
  · rw [if_neg hhead]
    by_cases hrow : i < wideHead.length + bufsz
    · rw [if_pos hrow, List.getD_append _ _ _ _
        (by rw [List.length_append, List.length_replicate]; exact hrow),
        List.getD_append_right _ _ _ _ (Nat.not_lt.mp hhead), List.getD_replicate _ (by omega)]
    · rw [if_neg hrow, List.getD_append_right _ _ _ _
        (by rw [List.length_append, List.length_replicate]; exact Nat.not_lt.mp hrow),
        List.length_append, List.length_replicate]

/-- Two queries; the first has a row. -/
def wideCalls : List Call :=
  [.query (some [1]) scrcOk, .fetchRow, .fetchRow, .query (some [1]) scrcOk]

/-- The status the last call of a run returns. -/
def lastStatus (run : Except Fault (Client × List (Call × Reply))) : Option UInt32 :=
  run.toOption.bind fun run => run.2.getLast?.map fun answer => answer.2.status

theorem exec_wide (tail arriving : List UInt8) {more : Nat}
    (hmore : (wideHead ++ List.replicate bufsz 0 ++ tail).length = more + 1) (hfull : more < fullsz) :
    Machine.exec step (connected (fun _ => 0) [.moved more]
        (wideHead ++ List.replicate bufsz 0 ++ tail ++ arriving)) wideCalls
      = Machine.exec step (filled (wideMemory tail) (more + 1) arriving) wideCalls := by
  rw [wideCalls, Machine.exec, Machine.exec, step_connected hmore (by omega), write_wide, hmore]

/-- The second response is the refusal `104`. It is read as a success where the first `recv` ends inside of
its header line. -/
theorem straddling_line_differs :
    ¬ ∀ (rbuf rbuf' : Nat → UInt8) (outcomes outcomes' : List Transfer),
      (∀ t ∈ outcomes, t.Succeeds) → (∀ t ∈ outcomes', t.Succeeds) →
        ∀ (stream : List UInt8) (calls : List Call),
          SameAnswers rbuf rbuf' outcomes outcomes' stream calls := by
  intro h
  obtain ⟨c, c', hist, hwhole, hcut⟩ := h (fun _ => 0) (fun _ => 0) [.moved 65591] [.moved 65579]
    (by decide) (by decide) (wideHead ++ List.replicate bufsz 0 ++ wideTail) wideCalls
  have htail : wideHead ++ List.replicate bufsz 0 ++ wideTail
      = wideHead ++ List.replicate bufsz 0 ++ wideTail.take 7 ++ wideTail.drop 7 := by
    rw [List.append_assoc _ (wideTail.take 7), List.take_append_drop]
  have hlen : ∀ tail, (wideHead ++ List.replicate bufsz 0 ++ tail).length
      = wideHead.length + bufsz + tail.length := by
    intro tail
    rw [List.length_append, List.length_append, List.length_replicate]
  rw [← List.append_nil (wideHead ++ List.replicate bufsz 0 ++ wideTail),
    exec_wide _ _ ((hlen _).trans (by decide)) (by decide)] at hwhole
  rw [htail, exec_wide _ _ ((hlen _).trans (by decide)) (by decide)] at hcut
  have hrefused : lastStatus (Machine.exec step (filled (wideMemory wideTail) (65591 + 1) [])
      wideCalls) = some 104 := by decide +kernel
  have haccepted : lastStatus (Machine.exec step (filled (wideMemory (wideTail.take 7)) (65579 + 1)
      (wideTail.drop 7)) wideCalls) = some 0 := by decide +kernel
  have hsame : lastStatus (.ok (c, hist)) = lastStatus (.ok (c', hist)) := rfl
  rw [← hwhole, ← hcut, hrefused, haccepted] at hsame
  exact absurd hsame (by decide)

end Client

end Scroller

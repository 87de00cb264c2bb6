import Scroller.ClientScript
import Scroller.Proof.RequestText

/-!
# What a script sends

The queries that go out on the socket are the script, cut behind the lines with a semicolon. Nothing is skipped and
nothing is sent twice, and where the client ends without an error only blanks are left.
-/

namespace Scroller

open ByteMemory ScrcConnection

/-! ### The lines of a script -/

theorem flatten_fgetsLines (size room : Nat) (text : List UInt8) : (fgetsLines size room text).flatten = text := by
  induction text generalizing room with
  | nil => rfl
  | cons c s ih =>
      rw [fgetsLines]
      split
      · rw [List.flatten_cons, ih]
        rfl
      · have hs := ih (room - 1)
        split
        · next hnil =>
          rw [hnil] at hs
          rw [← hs]
          rfl
        · next hcons =>
          rw [hcons] at hs
          rw [← hs]
          rfl

theorem CStr.ofBuffer_bytes {s : List UInt8} (h : 0 ∉ s) : (CStr.ofBuffer s).bytes = s := by
  change s.takeWhile (· ≠ 0) = s
  rw [List.takeWhile_eq_self_iff]
  intro b hb
  exact decide_eq_true fun hzero => h (hzero ▸ hb)

theorem CStr.ext {s t : CStr} (h : s.bytes = t.bytes) : s = t := by
  cases s
  cases t
  cases h
  rfl

/-- The client's state behind some lines. -/
def LineState.after (st : LineState) (lines : List (List UInt8)) : LineState :=
  lines.foldl (fun st line => (lineHasSemicolon st line).state) st

theorem LineState.after_append (st : LineState) (lines lines' : List (List UInt8)) :
    st.after (lines ++ lines') = (st.after lines).after lines' := List.foldl_append

/-- None of the lines has a semicolon for the client. -/
def Quiet : LineState → List (List UInt8) → Prop
  | _, [] => True
  | st, line :: lines => (lineHasSemicolon st line).found = false ∧ Quiet (lineHasSemicolon st line).state lines

theorem Quiet.append {st : LineState} {lines : List (List UInt8)} (h : Quiet st lines) {line : List UInt8}
    (hline : (lineHasSemicolon (st.after lines) line).found = false) : Quiet st (lines ++ [line]) := by
  induction lines generalizing st with
  | nil => exact ⟨hline, trivial⟩
  | cons line' lines ih => exact ⟨h.1, ih h.2 hline⟩

/-- The last of the lines has a semicolon for the client, and no other one has. -/
def Completes (st : LineState) (lines : List (List UInt8)) : Prop :=
  ∃ quiet line, lines = quiet ++ [line] ∧ Quiet st quiet ∧ (lineHasSemicolon (st.after quiet) line).found = true

/-- Each query ends with its first line that has a semicolon. -/
def CutAt : LineState → List (List (List UInt8)) → Prop
  | _, [] => True
  | st, query :: queries => Completes st query ∧ CutAt (st.after query) queries

/-! ### Sending a query -/

namespace ScrcConnection

/-- The bytes that `send_query` has for `send_block`. -/
def queryBlock (stack : Nat → UInt8) (query : CStr) : List UInt8 :=
  if query.bytes = [] then []
  else slice (write stack 0 (fitted 0 (queryText query))) 0 (queryText query).length

theorem length_queryText (query : CStr) : (queryText query).length = query.bytes.length + 4 := List.length_append

/-- A query that fits in the buffer goes out with its end marker. -/
theorem queryBlock_of_fits (stack : Nat → UInt8) {query : CStr} (hne : query.bytes ≠ [])
    (hfits : query.bytes.length + 4 < bufsz) : queryBlock stack query = queryText query := by
  have hlen := length_queryText query
  have hslice := @slice_write_fits stack 0 [] (queryText query) rfl (by omega)
  rw [Nat.zero_add] at hslice
  rw [queryBlock, if_neg hne]
  exact hslice

theorem sendBlockLoop_unfailed {outcomes : List Transfer} (h : .failed ∉ outcomes) (written data : List UInt8) :
    ∃ rest, .failed ∉ rest ∧ sendBlockLoop written outcomes data = (⟨rest, written ++ data⟩, scrcOk) := by
  induction outcomes generalizing written data with
  | nil => cases data <;> exact ⟨[], List.not_mem_nil, by simp [sendBlockLoop]⟩
  | cons t outcomes ih =>
      have hrest : .failed ∉ outcomes := fun hmem => h (List.mem_cons_of_mem _ hmem)
      cases data with
      | nil => exact ⟨t :: outcomes, h, by simp [sendBlockLoop]⟩
      | cons byte data =>
          cases t with
          | interrupted => exact ih hrest written (byte :: data)
          | closed => exact ih hrest written (byte :: data)
          | failed => exact absurd List.mem_cons_self h
          | moved more =>
              obtain ⟨rest, hunfailed, hloop⟩ := ih hrest
                (written ++ (byte :: data).take (more + 1)) ((byte :: data).drop (more + 1))
              rw [List.append_assoc, List.take_append_drop] at hloop
              exact ⟨rest, hunfailed, hloop⟩

theorem sendQuery_unfailed {sockfd : Outbound} (h : .failed ∉ sockfd.outcomes) (stack : Nat → UInt8) {query : CStr}
    (hlen : query.bytes.length < bufferSize) : ∃ rest, .failed ∉ rest
      ∧ sendQuery sockfd stack query = .ok (⟨rest, sockfd.written ++ queryBlock stack query⟩, scrcOk) := by
  rw [sendQuery, queryBlock]
  split
  · exact ⟨sockfd.outcomes, h, by rw [List.append_nil]; rfl⟩
  · have htext := length_queryText query
    have hbuffer : bufferSize = 65536 := rfl
    have hmax : intMax = 2147483647 := rfl
    have hlength : snprintfLength (queryText query) = (queryText query).length := if_pos (by omega)
    have hstart := @appendText_start stack 0 (queryText query) (Nat.zero_le _)
    rw [hlength, if_neg (by omega), Nat.cast_zero] at hstart
    obtain ⟨rest, hunfailed, hloop⟩ := sendBlockLoop_unfailed h sockfd.written
      (slice (write stack 0 (fitted 0 (queryText query))) 0 (queryText query).length)
    refine ⟨rest, hunfailed, ?_⟩
    rw [hstart, pure_bind]
    change Except.ok (sendBlock sockfd _ _) = _
    rw [sendBlock]
    simp only [Int.zero_add, Int.toNat_natCast]
    rw [hloop]

end ScrcConnection

namespace Console

variable {stack : Nat → UInt8} {c c' : Console} {query : CStr}

/-- What a call of `ask` returns, in front of the printing of a response. -/
theorem ask_sockfd {r : Except UInt32 UInt32} {sockfd : Outbound} {sent : UInt32}
    (hsend : c.send stack query = .ok (sockfd, sent)) (hask : c.ask stack query = .ok (c', r)) :
    c'.sockfd = sockfd ∧ ∃ conn status, c.conn.scrcQuery (some query.bytes) sent = .ok (conn, status)
      ∧ (status = scrcOk → ∃ status', r = .ok status') ∧ (status ≠ scrcOk → r = .error status) := by
  obtain ⟨sends, hsends, hask⟩ := bind_eq_ok.mp hask
  cases hsend.symm.trans hsends
  obtain ⟨⟨conn, status⟩, hquery, hask⟩ := bind_eq_ok.mp hask
  dsimp only at hask
  split at hask
  · next hstatus =>
    cases hask
    exact ⟨rfl, conn, status, hquery, fun h => absurd h hstatus, fun _ => rfl⟩
  · next hstatus =>
    rw [not_not] at hstatus
    split at hask
    · obtain ⟨⟨conn', status', rows⟩, -, hask⟩ := bind_eq_ok.mp hask
      cases hask
      exact ⟨rfl, conn, status, hquery, fun _ => ⟨status', rfl⟩, fun h => absurd hstatus h⟩
    · cases hask
      exact ⟨rfl, conn, status, hquery, fun _ => ⟨status, rfl⟩, fun h => absurd hstatus h⟩

/-- A query goes out whole on a connection without a status. -/
theorem ask_written {r : Except UInt32 UInt32} (hstatus : c.conn.status = scrcOk) (hlen : query.bytes.length < bufferSize)
    (hfailed : .failed ∉ c.sockfd.outcomes) (hask : c.ask stack query = .ok (c', r)) :
    .failed ∉ c'.sockfd.outcomes ∧ c'.sockfd.written = c.sockfd.written ++ queryBlock stack query := by
  obtain ⟨rest, hrest, hsend⟩ := sendQuery_unfailed hfailed stack hlen
  have hsockfd := (ask_sockfd ((if_neg (not_not.mpr hstatus)).trans hsend) hask).1
  rw [hsockfd]
  exact ⟨hrest, rfl⟩

/-- A query goes out whole, or it fails and nothing is sent. -/
theorem ask_sends {r : Except UInt32 UInt32} (hlen : query.bytes.length < bufferSize)
    (hfailed : .failed ∉ c.sockfd.outcomes) (hask : c.ask stack query = .ok (c', r)) :
    .failed ∉ c'.sockfd.outcomes ∧ (∀ status, r = .error status → status ≠ scrcOk)
      ∧ (c'.sockfd.written = c.sockfd.written ++ queryBlock stack query
        ∨ c'.sockfd.written = c.sockfd.written ∧ ∃ status, r = .error status) := by
  have herror : ∀ {status : UInt32}, (status = scrcOk → ∃ status', r = .ok status') →
      (status ≠ scrcOk → r = .error status) → ∀ status', r = .error status' → status' ≠ scrcOk := by
    intro status hok hbad status' hr
    by_cases hstatus : status = scrcOk
    · obtain ⟨status'', hr'⟩ := hok hstatus
      cases hr.symm.trans hr'
    · cases hr.symm.trans (hbad hstatus)
      exact hstatus
  by_cases hstatus : c.conn.status = scrcOk
  · obtain ⟨rest, -, hsend⟩ := sendQuery_unfailed hfailed stack hlen
    obtain ⟨-, conn, status, -, hok, hbad⟩ := ask_sockfd ((if_neg (not_not.mpr hstatus)).trans hsend) hask
    obtain ⟨hrest, hwritten⟩ := ask_written hstatus hlen hfailed hask
    exact ⟨hrest, herror hok hbad, .inl hwritten⟩
  · obtain ⟨hsockfd, conn, status, hquery, hok, hbad⟩ := ask_sockfd (if_pos hstatus) hask
    rw [scrcQuery, if_pos hstatus] at hquery
    cases hquery
    rw [hsockfd]
    exact ⟨hfailed, herror hok hbad, .inr ⟨rfl, _, hbad hstatus⟩⟩

/-- The bytes that go out for the query in some lines. -/
def request (stack : Nat → UInt8) (lines : List (List UInt8)) : List UInt8 :=
  queryBlock stack (CStr.ofBuffer lines.flatten)

/-- What has gone out at the end of a run: complete queries, and what is left of the input where that is not blank and
the input has ended. -/
def Sends (stack : Nat → UInt8) (st : LineState) (queries : List (List (List UInt8))) (rest : List (List UInt8))
    (status : UInt32) (sent : List UInt8) : Prop :=
  sent = queries.flatMap (request stack) ∧ (status = scrcOk → ∀ b ∈ rest.flatten, isspace b = true)
    ∨ sent = queries.flatMap (request stack) ++ request stack rest ∧ Quiet (st.after queries.flatten) rest
      ∧ ∃ b ∈ rest.flatten, isspace b = false

theorem request_eq {lines : List (List UInt8)} (hquery : query.bytes = lines.flatten) :
    request stack lines = queryBlock stack query := by
  have hnul : 0 ∉ lines.flatten := hquery ▸ query.nul
  rw [request]
  congr 1
  exact CStr.ext ((CStr.ofBuffer_bytes hnul).trans hquery.symm)

theorem Sends.cons {st : LineState} {query : List (List UInt8)} {queries : List (List (List UInt8))}
    {rest : List (List UInt8)} {status : UInt32} {sent : List UInt8}
    (h : Sends stack (st.after query) queries rest status sent) :
    Sends stack st (query :: queries) rest status (request stack query ++ sent) := by
  rcases h with ⟨rfl, hblank⟩ | ⟨rfl, hquiet, hrest⟩
  · exact .inl ⟨List.flatMap_cons.symm, hblank⟩
  · refine .inr ⟨?_, ?_, hrest⟩
    · rw [List.flatMap_cons, List.append_assoc]
    · rw [List.flatten_cons, LineState.after_append]
      exact hquiet

theorem blank_of_dropWhile {s : List UInt8} (h : s.dropWhile isspace = []) : ∀ b ∈ s, isspace b = true := by
  rwa [List.dropWhile_eq_nil_iff] at h

theorem not_blank_of_dropWhile {s : List UInt8} (h : ¬ s.dropWhile isspace = []) : ∃ b ∈ s, isspace b = false := by
  rw [List.dropWhile_eq_nil_iff] at h
  push Not at h
  obtain ⟨b, hb, hspace⟩ := h
  exact ⟨b, hb, Bool.eq_false_of_not_eq_true hspace⟩

/-- The loop, behind lines without a semicolon that are in the buffer. -/
theorem scriptLoop_sends {lines pending : List (List UInt8)} {st : LineState} {status status' : UInt32}
    (hlines : ∀ line ∈ lines, 0 ∉ line) (hfailed : .failed ∉ c.sockfd.outcomes)
    (hquery : query.bytes = pending.flatten) (hlen : query.bytes.length < bufferSize) (hquiet : Quiet st pending)
    (hrun : c.scriptLoop stack lines query (st.after pending) status = .ok (c', status')) :
    ∃ queries rest sent, pending ++ lines = queries.flatten ++ rest ∧ CutAt st queries
      ∧ (∀ lines ∈ queries, lines.flatten.length < bufferSize)
      ∧ c'.sockfd.written = c.sockfd.written ++ sent ∧ Sends stack st queries rest status' sent := by
  induction lines generalizing c query pending st status with
  | nil =>
      refine ⟨[], pending, ?_⟩
      rw [scriptLoop] at hrun
      split at hrun
      · next hblank =>
        cases hrun
        rw [hquery] at hblank
        exact ⟨[], List.append_nil _, trivial, nofun, (List.append_nil _).symm, .inl ⟨rfl, fun _ => blank_of_dropWhile hblank⟩⟩
      · next hblank =>
        rw [hquery] at hblank
        obtain ⟨⟨c₁, r⟩, hask, hrun⟩ := bind_eq_ok.mp hrun
        obtain ⟨-, herror, hsent⟩ := ask_sends hlen hfailed hask
        have hc : c' = c₁ ∧ (r = .error status' ∨ r = .ok status') := by
          cases r <;> cases hrun
          · exact ⟨rfl, .inl rfl⟩
          · exact ⟨rfl, .inr rfl⟩
        obtain ⟨rfl, hr⟩ := hc
        rcases hsent with hsent | ⟨hsent, status₁, hr₁⟩
        · refine ⟨request stack pending, List.append_nil _, trivial, nofun, ?_, .inr ⟨rfl, hquiet, not_blank_of_dropWhile hblank⟩⟩
          rw [hsent, request_eq hquery]
        · refine ⟨[], List.append_nil _, trivial, nofun, hsent.trans (List.append_nil _).symm, .inl ⟨rfl, fun hok => ?_⟩⟩
          cases hr.resolve_right (by rw [hr₁]; nofun)
          exact absurd hok (herror status' rfl)
  | cons line lines ih =>
      have hline : (CStr.ofBuffer line).bytes = line := CStr.ofBuffer_bytes (hlines line List.mem_cons_self)
      have hrest : ∀ line ∈ lines, 0 ∉ line := fun line hmem => hlines line (List.mem_cons_of_mem _ hmem)
      have happend : (query.append (CStr.ofBuffer line)).bytes = (pending ++ [line]).flatten := by
        change query.bytes ++ (CStr.ofBuffer line).bytes = _
        rw [hline, hquery, List.flatten_append, List.flatten_singleton]
      rw [scriptLoop] at hrun
      simp only [hline] at hrun
      split at hrun
      · -- the query is too large
        cases hrun
        exact ⟨[], pending ++ line :: lines, [], rfl, trivial, nofun, (List.append_nil _).symm, .inl ⟨rfl, nofun⟩⟩
      · next hsmall =>
        have hlen' : (query.append (CStr.ofBuffer line)).bytes.length < bufferSize := by
          change (query.bytes ++ (CStr.ofBuffer line).bytes).length < bufferSize
          rw [List.length_append, hline]
          omega
        split at hrun
        · next hfound =>
          have hcompletes : Completes st (pending ++ [line]) := ⟨pending, line, rfl, hquiet, hfound⟩
          obtain ⟨⟨c₁, r⟩, hask, hrun⟩ := bind_eq_ok.mp hrun
          obtain ⟨hfailed₁, herror, hsent⟩ := ask_sends hlen' hfailed hask
          rw [← request_eq happend] at hsent
          cases r with
          | error status₁ =>
              cases hrun
              have hbad := herror status' rfl
              rcases hsent with hsent | ⟨hsent, -⟩
              · refine ⟨[pending ++ [line]], lines, request stack (pending ++ [line]), ?_, ⟨hcompletes, trivial⟩, ?_, hsent,
                  .inl ⟨(List.append_nil _).symm, fun hok => absurd hok hbad⟩⟩
                · rw [List.flatten_singleton, List.append_assoc]
                  rfl
                · intro query' hmem
                  rw [List.mem_singleton.mp hmem, ← happend]
                  exact hlen'
              · exact ⟨[], pending ++ line :: lines, [], rfl, trivial, nofun, hsent.trans (List.append_nil _).symm,
                  .inl ⟨rfl, fun hok => absurd hok hbad⟩⟩
          | ok status₁ =>
              have hstate : (lineHasSemicolon (st.after pending) line).state = (st.after (pending ++ [line])).after [] := by
                rw [LineState.after_append]
                rfl
              dsimp only at hrun
              rw [hstate] at hrun
              obtain ⟨queries, rest, sent, hsplit, hcut, hshort, hwritten, hsends⟩ := @ih c₁ CStr.empty [] _ status₁
                hrest hfailed₁ rfl (by decide) trivial hrun
              refine ⟨(pending ++ [line]) :: queries, rest, _, ?_, ⟨hcompletes, hcut⟩, ?_, ?_, hsends.cons⟩
              · rw [List.flatten_cons, List.append_assoc, ← hsplit, List.append_assoc]
                rfl
              · intro query' hmem
                rcases List.mem_cons.mp hmem with rfl | hmem
                · rw [← happend]
                  exact hlen'
                · exact hshort query' hmem
              · rcases hsent with hsent | ⟨-, status₂, hr⟩
                · rw [hwritten, hsent, List.append_assoc]
                · cases hr
        · next hfound =>
          have hquiet' := hquiet.append (Bool.eq_false_of_not_eq_true hfound)
          have hstate : (lineHasSemicolon (st.after pending) line).state = st.after (pending ++ [line]) := by
            rw [LineState.after_append]
            rfl
          rw [hstate] at hrun
          obtain ⟨queries, rest, sent, hsplit, hcut⟩ := ih hrest hfailed happend hlen' hquiet' hrun
          exact ⟨queries, rest, sent, by rw [← hsplit, List.append_assoc]; rfl, hcut⟩

theorem null_not_mem_flatten {lines : List (List UInt8)} (h : ∀ line ∈ lines, 0 ∉ line) : 0 ∉ lines.flatten := by
  intro hzero
  obtain ⟨line, hline, hzero⟩ := List.mem_flatten.mp hzero
  exact h line hline hzero

/-- **A script is sent as it is.** The lines of the script are the queries that have gone out, each up to its first line
with a semicolon, and a rest: the rest goes out at the end of the input where it is not blank, and a run that ends without
an error leaves nothing else. A query goes out with its end marker where it and the marker fit in the buffer. -/
theorem script_requests (stack : Nat → UInt8) {c c' : Console} {text : List UInt8} {status : UInt32} (htext : 0 ∉ text)
    (hfailed : .failed ∉ c.sockfd.outcomes) (hrun : c.clientRunScript stack text = .ok (c', status)) :
    ∃ queries rest sent, text = queries.flatten.flatten ++ rest.flatten ∧ inputLines text = queries.flatten ++ rest
      ∧ CutAt .start queries ∧ c'.sockfd.written = c.sockfd.written ++ sent
      ∧ Sends stack .start queries rest status sent
      ∧ ∀ query ∈ rest :: queries, query.flatten ≠ [] → query.flatten.length + 4 < bufsz →
          request stack query = query.flatten ++ ascii "\n$$\n" := by
  have hflatten : (inputLines text).flatten = text := flatten_fgetsLines _ _ text
  have hlines : ∀ line ∈ inputLines text, 0 ∉ line := by
    intro line hline hzero
    refine htext (hflatten ▸ ?_)
    exact List.mem_flatten.mpr ⟨line, hline, hzero⟩
  obtain ⟨queries, rest, sent, hsplit, hcut, -, hwritten, hsends⟩ := @scriptLoop_sends stack c c' CStr.empty
    (inputLines text) [] .start scrcOk status hlines hfailed rfl (by decide) trivial hrun
  rw [List.nil_append] at hsplit
  refine ⟨queries, rest, sent, ?_, hsplit, hcut, hwritten, hsends, ?_⟩
  · rw [← List.flatten_append, ← hsplit, hflatten]
  · intro query hquery hne hfits
    have hnul : 0 ∉ query.flatten := by
      refine null_not_mem_flatten fun line hline => hlines line ?_
      rw [hsplit]
      rcases List.mem_cons.mp hquery with rfl | hquery
      · exact List.mem_append_right _ hline
      · exact List.mem_append_left _ (List.mem_flatten.mpr ⟨query, hquery, hline⟩)
    have hbytes := CStr.ofBuffer_bytes hnul
    rw [request, queryBlock_of_fits stack (by rwa [hbytes]) (by rwa [hbytes]), queryText, hbytes]

/-- Two queries, the second one without a semicolon, that are answered. -/
theorem script_requests_small : ∃ c' queries rest sent,
    clientRunScript (fun _ => 0) ⟨fresh (fun _ => 1) [] (ascii "Status: 0\n$$\nStatus: 0\n$$\n"), ⟨[], []⟩, []⟩ (ascii "a;\nb\n")
        = .ok (c', scrcOk)
      ∧ ascii "a;\nb\n" = queries.flatten.flatten ++ rest.flatten ∧ c'.sockfd.written = sent
      ∧ Sends (fun _ => 0) .start queries rest scrcOk sent := by
  obtain ⟨c', hrun⟩ : ∃ c', clientRunScript (fun _ => 0)
      ⟨fresh (fun _ => 1) [] (ascii "Status: 0\n$$\nStatus: 0\n$$\n"), ⟨[], []⟩, []⟩ (ascii "a;\nb\n") = .ok (c', scrcOk) :=
    ⟨_, rfl⟩
  obtain ⟨queries, rest, sent, htext, -, -, hwritten, hsends, -⟩ :=
    script_requests (fun _ => 0) (by decide) List.not_mem_nil hrun
  exact ⟨c', queries, rest, sent, hrun, htext, hwritten, hsends⟩

end Console

end Scroller

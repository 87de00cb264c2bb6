import Scroller.Proof.Calls

/-!
# Responses near the start of the buffer

The lines of a header are read without compaction where the header starts early in the buffer and no line of
it starts with a space. With columns of the right size such a response is read as it has to be.
-/

namespace Scroller

open ByteMemory

namespace ScrcConnection

variable {conn : ScrcConnection}

/-- The walk back of `trim` meets something: the character in front of the part `cur` of the line, or its
first one. -/
def Guarded (rbuf : Nat → UInt8) (start : Nat) (cur : List UInt8) : Prop :=
  (∃ q, start = q + 1 ∧ isspace (rbuf q) = false) ∨ ∃ b rest, cur = b :: rest ∧ isspace b = false

theorem Guarded.trimsInside {rbuf rbuf' : Nat → UInt8} {start p : Nat} {cur : List UInt8}
    (h : Guarded rbuf start cur) (hstart : start ≤ p) (hcur : slice rbuf start (p - start) = cur)
    (hsame : ∀ i < p, rbuf' i = rbuf i) : TrimsInside rbuf' start p := by
  have hslice : slice rbuf' start (p - start) = cur :=
    (slice_congr fun i hi => hsame _ (by omega)).trans hcur
  rw [TrimsInside, hslice]
  rcases h with ⟨q, rfl, hspace⟩ | ⟨b, rest, rfl, hspace⟩
  · exact Or.inr ⟨q, by omega, by rwa [hsame q (by omega)]⟩
  · by_cases hzero : b = 0
    · exact Or.inl (List.takeWhile_cons_of_neg (by simp [hzero]))
    · have hlen : 0 < p - start := by
        have hlen := congrArg List.length hcur
        rw [length_slice, List.length_cons] at hlen
        omega
      refine Or.inr ⟨start, ?_, ?_⟩
      · rw [List.takeWhile_cons_of_pos (by simp [hzero]), List.length_cons]
        omega
      · rw [hsame start (by omega)]
        obtain ⟨n, hn⟩ : ∃ n, p - start = n + 1 := ⟨p - start - 1, by omega⟩
        rw [hn, slice_succ] at hcur
        rwa [(List.cons.inj hcur).1]

/-- A line that has to end in front of `BUFSZ` is read without compaction. -/
theorem lineKept_of_room (room : Nat) {start : Nat} {cur : List UInt8} (h : conn.Healthy)
    (hroom : conn.rpos + room ≤ bufsz) (hstart : start ≤ conn.rpos)
    (hcur : slice conn.rbuf start (conn.rpos - start) = cur) (hline : ∀ b ∈ cur, b ≠ 10)
    (hguarded : Guarded conn.rbuf start cur) : LineKept room conn start := by
  induction room generalizing conn start cur with
  | zero => exact trivial
  | succ room ih =>
      have hstays : conn.Stays := by
        intro hempty
        omega
      refine ⟨hstays, ?_⟩
      obtain ⟨conn₁, r, hblock, hunchanged, -, -, hend⟩ := recvBlock_decodes h 1
      rw [hblock]
      cases r with
      | error ret => exact trivial
      | ok p =>
          obtain ⟨rfl, hpos, hsame⟩ := recvBlock_one h hstays hblock
          have hrpos := hunchanged.healthy.bounded.rpos_le
          have hrlen := hunchanged.healthy.bounded.rlen_le
          have hbelow : ∀ i < conn.rpos, Function.update conn₁.rbuf conn.rpos 0 i = conn.rbuf i :=
            fun i hi => (Function.update_of_ne (Nat.ne_of_lt hi) _ _).trans (hsame i hi)
          have hinside := hguarded.trimsInside hstart hcur hbelow
          simp only
          by_cases hcolon : conn₁.rbuf conn.rpos = 58
          · rw [if_pos hcolon]
            refine ⟨hinside, fun rbuf' src htrim => ?_⟩
            obtain ⟨rbuf₂, src₂, htrim₂, -, -, hterm, habove, -⟩ :=
              trim_line hstart (by omega) hcur hline hsame hinside
            rw [htrim] at htrim₂
            cases htrim₂
            have hbehind : ∀ i, conn₁.rpos ≤ i → rbuf' i = conn₁.rbuf i :=
              fun i hi => habove i (by omega)
            rw [← hpos]
            apply @ih { conn₁ with rbuf := rbuf' } conn₁.rpos [] (hunchanged.write hbehind).healthy
              (by show conn₁.rpos + room ≤ bufsz; omega) (Nat.le_refl _)
              (by rw [Nat.sub_self]; rfl) (by simp)
            refine Or.inl ⟨conn.rpos, hpos, ?_⟩
            show isspace (rbuf' conn.rpos) = false
            rw [hterm]
            exact isspace_zero
          · rw [if_neg hcolon]
            by_cases hnewline : conn₁.rbuf conn.rpos = 10
            · rw [if_pos hnewline]
              exact hinside
            · rw [if_neg hnewline]
              have hcur' : slice conn₁.rbuf start (conn₁.rpos - start)
                  = cur ++ [conn₁.rbuf conn.rpos] := by
                rw [hpos, show conn.rpos + 1 - start = conn.rpos - start + 1 by omega, slice_concat,
                  show start + (conn.rpos - start) = conn.rpos by omega, ← hcur]
                congr 1
                exact slice_congr fun i hi => hsame _ (by omega)
              apply ih hunchanged.healthy (by omega) (by omega) hcur'
              · intro c hc
                rcases List.mem_append.mp hc with hc | hc
                · exact hline c hc
                · rwa [List.mem_singleton.mp hc]
              · rcases hguarded with ⟨q, rfl, hspace⟩ | ⟨b, rest, rfl, hspace⟩
                · exact Or.inl ⟨q, rfl, by rwa [hsame q (by omega)]⟩
                · exact Or.inr ⟨b, rest ++ [conn₁.rbuf conn.rpos], rfl, hspace⟩

/-- The lines of a header start with something that is not a space, and with at most `early` bytes read. -/
def PlainHeader (total early : Nat) : Nat → Bool → List UInt8 → Prop
  | 0, _, _ => True
  | fuel + 1, body, s =>
      (∀ b ∈ s.head?, isspace b = false) ∧ total ≤ early + s.length
        ∧ ∀ name value rest, Decoder.line s = (.ok (name, value), rest) →
            ∀ body', headerStep name value body = .ok body' →
              PlainHeader total early fuel body' rest

/-- Such a header is read without compaction where it starts early in the buffer. -/
theorem headerKept_of_plain {total early : Nat} (hearly : early + headerMax ≤ bufsz) (fuel : Nat)
    (h : conn.Healthy) (htotal : conn.rpos + conn.view.length ≤ total)
    (hplain : PlainHeader total early fuel conn.body conn.view) : HeaderKept fuel conn := by
  induction fuel generalizing conn with
  | zero => exact trivial
  | succ fuel ih =>
      obtain ⟨hfirst, hread, hnext⟩ := hplain
      have hkept : conn.HeaderLineKept := by
        obtain ⟨conn₁, r, hblock, hunchanged, hview, hbytes, hend⟩ := recvBlock_decodes h 1
        rw [HeaderLineKept, hblock]
        cases r with
        | error ret => exact trivial
        | ok start =>
            have hpos := hend start rfl
            have hslice : (.ok (slice conn₁.rbuf start 1) : Except UInt32 (List UInt8))
                = (Decoder.block 1 conn.view).1 := hbytes
            have hone : ¬ bufsz < 1 := by decide
            rw [Decoder.block, if_neg hone] at hslice hview
            have hfront := hunchanged.front
            have hbound : headerMax - 2 + 2 = headerMax := by decide
            cases hstream : conn.view with
            | nil =>
                rw [hstream, if_pos (show ([] : List UInt8).length < 1 from Nat.zero_lt_one)]
                  at hslice
                cases hslice
            | cons b rest =>
                rw [hstream, if_neg (show ¬ (b :: rest).length < 1 by simp)] at hslice hview
                have hlen : conn₁.view.length + 1 = conn.view.length := by
                  rw [hview, hstream]
                  rfl
                have hbyte : slice conn₁.rbuf start 1 = [b] := Except.ok.inj hslice
                have hb : conn₁.rbuf start = b := by
                  rw [slice_succ] at hbyte
                  exact (List.cons.inj hbyte).1
                intro hdelim
                refine @lineKept_of_room conn₁ (headerMax - 2) start [b] hunchanged.healthy ?_ ?_ ?_ ?_ ?_
                · omega
                · omega
                · rw [← hpos, Nat.add_sub_cancel_left, hbyte]
                · intro c hc
                  rw [List.mem_singleton.mp hc, ← hb]
                  exact fun hten => hdelim (Or.inr hten)
                · refine Or.inr ⟨b, [], rfl, hfirst b ?_⟩
                  rw [hstream]
                  rfl
      refine ⟨hkept, fun conn' hl name value body hline hname hvalue hstep => ?_⟩
      obtain ⟨conn₂, r, hline₂, hunchanged, hview, hagrees⟩ := recvHeaderLine_decodes h hkept
      rw [hline] at hline₂
      cases hline₂
      have hfront := hunchanged.front
      cases hdecoded : Decoder.line conn.view with
      | mk r' rest =>
          rw [hdecoded] at hview hagrees
          cases r' with
          | error ret => exact hagrees.elim
          | ok l =>
              obtain ⟨hname', hvalue'⟩ := hagrees
              obtain ⟨value', hread', hstep'⟩ := readValue_of_pointsAt hvalue' l.1 conn'.body
              rw [hname] at hname'
              cases hname'
              rw [hvalue] at hread'
              cases hread'
              rw [hstep', hunchanged.body] at hstep
              have hrest : conn'.view = rest := hview
              apply @ih { conn' with body } ⟨⟨hunchanged.healthy.bounded.rpos_le,
                hunchanged.healthy.bounded.rlen_le⟩, hunchanged.healthy.succeeds⟩
              · exact hfront.trans htotal
              · show PlainHeader total early fuel body conn'.view
                rw [hrest]
                exact hnext l.1 l.2 rest hdecoded body hstep

theorem PlainHeader.line {total early fuel : Nat} {body : Bool} {s name rest : List UInt8}
    {value : Option (List UInt8)} {next : Except UInt32 Bool}
    (hfirst : ∀ b ∈ s.head?, isspace b = false) (hread : total ≤ early + s.length)
    (hline : Decoder.line s = (.ok (name, value), rest)) (hstep : headerStep name value body = next)
    (hnext : ∀ body', next = .ok body' → PlainHeader total early fuel body' rest) :
    PlainHeader total early (fuel + 1) body s := by
  refine ⟨hfirst, hread, fun name' value' rest' hline' body' hstep' => ?_⟩
  rw [hline] at hline'
  cases hline'
  exact hnext body' (hstep.symm.trans hstep')

/-- Every column is announced with at least the size of the struct. -/
def PlainColumns : Nat → List UInt8 → Prop
  | 0, _ => True
  | fuel + 1, s =>
      ∀ bytes rest, Decoder.row s = (.ok bytes, rest) →
        sizeofColumn ≤ bytes.length ∧ PlainColumns fuel rest

theorem columnsKept_of_plain (fuel : Nat) (h : conn.Healthy) (hplain : PlainColumns fuel conn.view) :
    ColumnsKept fuel conn := by
  induction fuel generalizing conn with
  | zero => exact trivial
  | succ fuel ih =>
      intro conn' row size hrow
      obtain ⟨conn₁, r, hrow₁, hunchanged, hview, hbytes, -⟩ := recvRow_decodes h
      rw [hrow] at hrow₁
      cases hrow₁
      obtain ⟨hsize, hrest⟩ := hplain _ _ (Prod.ext hbytes.symm hview.symm)
      rw [length_slice] at hsize
      refine ⟨hsize, ih ⟨⟨hunchanged.healthy.bounded.rpos_le, hunchanged.healthy.bounded.rlen_le⟩,
        hunchanged.healthy.succeeds⟩ hrest⟩

theorem early_le {early : Nat} (h : early ≤ 1024) : early + headerMax ≤ bufsz := by
  rw [headerMax, bufsz]
  omega

/-- A query whose header lines are read without compaction keeps what it reads. -/
theorem queryKept_of_header (h : conn.Healthy)
    (hkept : HeaderKept (conn.left + 1) { conn with columns := [], body := false })
    (hcolumns : ∀ rest rest', Decoder.header conn.view = (scrcOk, true, rest) →
      Decoder.cmd rest = (.ok scrcCmdTabheader, rest') → PlainColumns (rest'.length + 1) rest')
    (query : Option (List UInt8)) (sent : UInt32) : conn.QueryKept query sent := by
  intro _ _ _ _
  refine ⟨hkept, fun conn₁ conn₂ hrecv hbody hcmd => ?_⟩
  obtain ⟨conn₁', hloop, hhealthy₁, -, -, hbody₁, hview₁⟩ :=
    @headerLoop_decodes { conn with columns := [], body := false } (conn.left + 1)
      ⟨⟨h.bounded.rpos_le, h.bounded.rlen_le⟩, h.succeeds⟩ hkept (by
        rw [length_view]
        exact Nat.lt_succ_self _)
  have hheader : Decoder.header conn.view = Decoder.headerLoop (conn.left + 1) false conn.view := by
    rw [Decoder.header, length_view]
  change _ = Except.ok (conn₁', (Decoder.headerLoop (conn.left + 1) false conn.view).1) at hloop
  change _ = (Decoder.headerLoop (conn.left + 1) false conn.view).2.1 at hbody₁
  change _ = (Decoder.headerLoop (conn.left + 1) false conn.view).2.2 at hview₁
  rw [← hheader] at hloop hbody₁ hview₁
  have hsame : conn₁ = conn₁' ∧ scrcOk = (Decoder.header conn.view).1 :=
    Prod.mk.inj (Except.ok.inj (hrecv.symm.trans hloop))
  obtain ⟨rfl, hstatus⟩ := hsame
  obtain ⟨conn₂', r, hcmd₂, hunchanged, hview₂, hr⟩ := recvCmd_decodes hhealthy₁
  rw [hcmd] at hcmd₂
  cases hcmd₂
  rw [← length_view]
  apply columnsKept_of_plain _ hunchanged.healthy
  apply hcolumns conn₁.view
  · exact Prod.ext hstatus.symm (Prod.ext (hbody₁.symm.trans hbody) hview₁.symm)
  · exact Prod.ext hr.symm hview₂.symm

theorem queryKept_of_plain {total early : Nat} (hearly : early + headerMax ≤ bufsz) (h : conn.Healthy)
    (htotal : conn.rpos + conn.view.length ≤ total)
    (hheader : PlainHeader total early (conn.view.length + 1) false conn.view)
    (hcolumns : ∀ rest rest', Decoder.header conn.view = (scrcOk, true, rest) →
      Decoder.cmd rest = (.ok scrcCmdTabheader, rest') → PlainColumns (rest'.length + 1) rest')
    (query : Option (List UInt8)) (sent : UInt32) : conn.QueryKept query sent := by
  rw [length_view] at hheader
  exact queryKept_of_header h (headerKept_of_plain hearly (conn.left + 1)
    ⟨⟨h.bounded.rpos_le, h.bounded.rlen_le⟩, h.succeeds⟩ htotal hheader) hcolumns query sent

end ScrcConnection

end Scroller

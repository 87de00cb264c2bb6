import Scroller.Proof.Calls
import Scroller.Proof.TrimReach

/-!
# Parsing a header line

`recv_header_line` sets the name at every `:` of a line, so that a value with a `:` in it is cut at the last
one. A line whose name is blank is trimmed from in front of it, and one during which the buffer is compacted is
trimmed where it was. All other lines are parsed as the protocol says.
-/

namespace Scroller.ScrcConnection

open ByteMemory

/-- The name of a line: what is in front of its first `:`. -/
def lineName (text : List UInt8) : List UInt8 := trimmed (text.takeWhile (· ≠ 58))

/-- The value of a line: what is behind its first `:`. -/
def lineValue (text : List UInt8) : Option (List UInt8) :=
  if 58 ∈ text then some (trimmed (text.dropWhile (· ≠ 58)).tail) else none

/-- `trim` touches nothing but the bytes from `first` to `p`. -/
def TrimKeeps (rbuf : Nat → UInt8) (start first p : Nat) : Prop :=
  ∃ lo hi, trimReach rbuf start = .ok (lo, hi) ∧ first ≤ lo ∧ hi ≤ p

/-- The loop of `recv_header_line` trims inside the bytes of its line. They start at `first`; a compaction
inside the line leaves those in the buffer that are read behind it. -/
def TrimsOwn : Nat → ScrcConnection → Nat → Nat → Prop
  | 0, _, _, _ => True
  | room + 1, conn, start, first =>
      match conn.recvBlock 1 with
      | .ok (conn, .ok p) =>
          let first := min first p
          if conn.rbuf p = 58 then
            TrimKeeps (Function.update conn.rbuf p 0) start first p
              ∧ ∀ rbuf src, trim (Function.update conn.rbuf p 0) start = .ok (rbuf, src) →
                  TrimsOwn room { conn with rbuf } (p + 1) first
          else if conn.rbuf p = 10 then TrimKeeps (Function.update conn.rbuf p 0) start first p
          else TrimsOwn room conn start first
      | _ => True

/-- So does `recv_header_line`. -/
def LineOwn (conn : ScrcConnection) : Prop :=
  match conn.recvBlock 1 with
  | .ok (conn, .ok start) =>
      ¬ (conn.rbuf start = 58 ∨ conn.rbuf start = 10) → TrimsOwn (headerMax - 2) conn start start
  | _ => True

/-- The line `text` is parsed: its name and its value are returned, the stream goes on with `rest`, and nothing
outside of the line is touched. -/
structure LineParsed (conn : ScrcConnection) (text rest : List UInt8) (conn' : ScrcConnection)
    (hl : HeaderLine) : Prop where
  recv : conn.recvHeaderLine = .ok (conn', .ok hl)
  name : cString conn'.rbuf hl.name = .ok (lineName text)
  value : PointsAt conn'.rbuf hl.value (lineValue text)
  view : conn'.view = rest
  own : conn.LineOwn

/-- None of the next `n` bytes needs a refill while the buffer is filled beyond `BUFSZ`. -/
def RestStays : Nat → Nat → Nat → Inbound → Prop
  | 0, _, _, _ => True
  | n + 1, rlen, rpos, sockfd =>
      if rpos < rlen then RestStays n rlen (rpos + 1) sockfd
      else
        rlen ≤ bufsz ∧
          match recvLoop (fullsz - rlen) sockfd.arriving sockfd.outcomes sockfd.asked with
          | (sockfd, .ok bytes) => RestStays n (rlen + bytes.length) (rpos + 1) sockfd
          | _ => True

/-- Nor does one of the `n` bytes behind the next. -/
def LineStays (conn : ScrcConnection) (n : Nat) : Prop :=
  ∀ conn' p, conn.recvBlock 1 = .ok (conn', .ok p) → RestStays n conn'.rlen conn'.rpos conn'.sockfd

/-! ### Reading one byte -/

section Byte

variable {conn conn' : ScrcConnection} {p n : Nat}

theorem recvBlock_one_cases (h : conn.Healthy) (hblock : conn.recvBlock 1 = .ok (conn', .ok p)) :
    conn.rpos < conn.rlen ∧ conn' = { conn with rpos := conn.rpos + 1 }
      ∨ conn.rpos = conn.rlen ∧ ∃ bytes,
          recvLoop (fullsz - conn.compact.rlen) conn.sockfd.arriving conn.sockfd.outcomes
              conn.sockfd.asked = (conn'.sockfd, .ok bytes)
            ∧ conn'.rlen = conn.compact.rlen + bytes.length ∧ conn'.rpos = conn.compact.rpos + 1 := by
  have hone : ¬ bufsz < 1 := by decide
  have hpos := h.bounded.rpos_le
  have hspace : 0 < bufsz := by decide
  rw [recvBlock, if_neg hone] at hblock
  by_cases hwait : conn.rlen - conn.rpos < 1
  · have hempty : conn.rpos = conn.rlen := by omega
    obtain ⟨conn₁, r, hrefill, hkept, hr⟩ := recvRefill_spec h.bounded (by omega)
    rw [recvBlockLoop, if_pos hwait, hrefill] at hblock
    cases r with
    | error ret => cases hblock
    | ok _ =>
        have hgrown : conn.rlen - conn.rpos < conn₁.rlen - conn₁.rpos := hr
        simp only [recvBlockLoop] at hblock
        rw [if_neg (by omega)] at hblock
        cases hblock
        obtain ⟨-, -, -, hsock⟩ := compact_spec h.bounded
        rw [recvRefill, hsock] at hrefill
        cases hloop : recvLoop (fullsz - conn.compact.rlen) conn.sockfd.arriving
            conn.sockfd.outcomes conn.sockfd.asked with
        | mk sockfd result =>
            rw [hloop] at hrefill
            cases result with
            | error ret => cases hrefill
            | ok bytes =>
                cases hrefill
                exact Or.inr ⟨hempty, bytes, rfl, rfl, rfl⟩
  · rw [recvBlockLoop, if_neg hwait] at hblock
    cases hblock
    exact Or.inl ⟨by omega, rfl⟩

theorem RestStays.stays (hstays : RestStays (n + 1) conn.rlen conn.rpos conn.sockfd) : conn.Stays := by
  intro hempty
  rw [RestStays, if_neg (by omega)] at hstays
  exact hstays.1

theorem restStays_succ (h : conn.Healthy) (hstays : conn.Stays)
    (hblock : conn.recvBlock 1 = .ok (conn', .ok p)) :
    RestStays (n + 1) conn.rlen conn.rpos conn.sockfd
      ↔ RestStays n conn'.rlen conn'.rpos conn'.sockfd := by
  rw [RestStays]
  rcases recvBlock_one_cases h hblock with ⟨hlt, rfl⟩ | ⟨hempty, bytes, hloop, hrlen, hrpos⟩
  · rw [if_pos hlt]
  · have hle := hstays hempty
    rw [compact_of_le hle] at hloop hrlen hrpos
    rw [if_neg (by omega), hloop, hrlen, hrpos]
    exact and_iff_right hle

/-- Where the buffer is compacted, the byte is the first one in it. -/
theorem rpos_of_not_stays (h : conn.Healthy) (hlost : ¬ conn.Stays)
    (hblock : conn.recvBlock 1 = .ok (conn', .ok p)) : bufsz < conn.rpos ∧ conn'.rpos = 1 := by
  simp only [Stays, Classical.not_imp, Nat.not_le] at hlost
  rcases recvBlock_one_cases h hblock with ⟨hlt, -⟩ | ⟨hempty, bytes, -, -, hrpos⟩
  · omega
  · have hfull : fullsz = bufsz + reservesz := rfl
    have hreserve : reservesz = bufsz := rfl
    have hspace : 0 < bufsz := by decide
    rw [compact, if_pos (by omega)] at hrpos
    exact ⟨by omega, hrpos⟩

theorem restStays_of_le {n rlen rpos : Nat} (sockfd : Inbound) (h : rpos + n ≤ rlen) :
    RestStays n rlen rpos sockfd := by
  induction n generalizing rpos with
  | zero => trivial
  | succ n ih =>
      rw [RestStays, if_pos (by omega)]
      exact ih (by omega)

theorem healthy_fresh (rbuf : Nat → UInt8) (stream : List UInt8) : (fresh rbuf [] stream).Healthy :=
  ⟨⟨Nat.le_refl _, Nat.zero_le _⟩, List.forall_mem_nil _⟩

theorem lineStays_fresh (rbuf : Nat → UInt8) {stream : List UInt8} {n : Nat} (hn : n < stream.length)
    (hlen : stream.length ≤ fullsz) : (fresh rbuf [] stream).LineStays n := by
  intro conn' p hblock
  have hcompact : (fresh rbuf [] stream).compact = fresh rbuf [] stream :=
    compact_of_le (Nat.zero_le bufsz)
  rcases recvBlock_one_cases (healthy_fresh rbuf stream) hblock with
    ⟨hlt, -⟩ | ⟨-, bytes, hloop, hrlen, hrpos⟩
  · exact absurd hlt (Nat.lt_irrefl 0)
  · rw [hcompact] at hloop hrlen hrpos
    have htake : stream.take (fullsz - 0) = stream := List.take_of_length_le hlen
    simp only [fresh, recvLoop, recvBytes, htake] at hloop
    split at hloop
    · cases (Prod.mk.inj hloop).2
    · cases (Prod.mk.inj hloop).2
      apply restStays_of_le
      rw [hrlen, hrpos]
      show 0 + 1 + n ≤ 0 + stream.length
      omega

end Byte

/-! ### Decoding a line -/

section Decoder

variable {text rest : List UInt8}

theorem mem_of_mem_trimmed {s : List UInt8} {b : UInt8} (h : b ∈ trimmed s) : b ∈ s := by
  obtain ⟨trail, htrail⟩ := List.rdropWhile_prefix (p := isspace) ((s.takeWhile (· ≠ 0)).dropWhile isspace)
  have hcore : b ∈ (s.takeWhile (· ≠ 0)).dropWhile isspace := by
    rw [← htrail]
    exact List.mem_append_left _ h
  exact (List.takeWhile_sublist _).mem ((List.dropWhile_sublist _).mem hcore)

theorem mem_trimmed {s : List UInt8} {b : UInt8} (hs : ∀ c ∈ s, c ≠ 0) (hspace : isspace b = false)
    (h : b ∈ s) : b ∈ trimmed s := by
  have htake : s.takeWhile (· ≠ 0) = s := by
    rw [List.takeWhile_eq_self_iff]
    simpa using hs
  obtain ⟨lead, trail, hsplit, hlead, htrail, -⟩ := exists_trimmed s
  rw [trimmed, htake]
  have hnot : ∀ c, isspace c = true → b ≠ c := by
    rintro c hc rfl
    rw [hspace] at hc
    cases hc
  rw [hsplit] at h
  rcases List.mem_append.mp h with hin | hin
  · exact absurd rfl (hnot b (hlead b hin))
  · rcases List.mem_append.mp hin with hmid | hin
    · exact hmid
    · exact absurd rfl (hnot b (htrail b hin))

theorem lineLoop_cons (room : Nat) (b : UInt8) (s cur : List UInt8) (name : Option (List UInt8)) :
    Decoder.lineLoop (room + 1) (b :: s) cur name
      = if b = 58 then Decoder.lineLoop room s [] (some (trimmed cur))
        else if b = 10 then
          match name with
          | some name => (.ok (name, some (trimmed cur)), s)
          | none => (.ok (trimmed cur, none), s)
        else Decoder.lineLoop room s (cur ++ [b]) name := rfl

theorem lineLoop_append (room : Nat) {a : List UInt8} (ha : ∀ b ∈ a, b ≠ 58 ∧ b ≠ 10)
    (s cur : List UInt8) (name : Option (List UInt8)) :
    Decoder.lineLoop (a.length + room) (a ++ s) cur name = Decoder.lineLoop room s (cur ++ a) name := by
  induction a generalizing cur with
  | nil => rw [List.length_nil, Nat.zero_add, List.nil_append, List.append_nil]
  | cons b a ih =>
      obtain ⟨hcolon, hnewline⟩ := ha b List.mem_cons_self
      rw [List.length_cons, Nat.add_right_comm, List.cons_append, lineLoop_cons, if_neg hcolon,
        if_neg hnewline, ih fun c hc => ha c (List.mem_cons_of_mem b hc), List.append_assoc,
        List.singleton_append]

/-- A line that is decoded has room, and its value has no `:`. -/
theorem lineLoop_ok {room : Nat} {cur s : List UInt8} {name : Option (List UInt8)}
    {l : List UInt8 × Option (List UInt8)} (htext : ∀ b ∈ text, b ≠ 10) (hcur : 58 ∉ cur)
    (h : Decoder.lineLoop room (text ++ 10 :: rest) cur name = (.ok l, s)) :
    text.length < room ∧ s = rest ∧ ∀ value, l.2 = some value → 58 ∉ value := by
  induction text generalizing room cur name with
  | nil =>
      cases room with
      | zero => cases h
      | succ room =>
          rw [List.nil_append, lineLoop_cons, if_neg (show ¬ (10 : UInt8) = 58 by decide),
            if_pos rfl] at h
          have hvalue : 58 ∉ trimmed cur := fun hin => hcur (mem_of_mem_trimmed hin)
          cases name with
          | none =>
              cases h
              exact ⟨Nat.zero_lt_succ _, rfl, fun value hval => by cases hval⟩
          | some name =>
              cases h
              exact ⟨Nat.zero_lt_succ _, rfl, fun value hval => by cases hval; exact hvalue⟩
  | cons b text ih =>
      have htext' : ∀ c ∈ text, c ≠ 10 := fun c hc => htext c (List.mem_cons_of_mem b hc)
      cases room with
      | zero => cases h
      | succ room =>
          rw [List.cons_append, lineLoop_cons] at h
          by_cases hcolon : b = 58
          · rw [if_pos hcolon] at h
            obtain ⟨hlt, hrest, hvalue⟩ := ih htext' (by simp) h
            exact ⟨Nat.succ_lt_succ hlt, hrest, hvalue⟩
          · rw [if_neg hcolon, if_neg (htext b List.mem_cons_self)] at h
            have hcur' : 58 ∉ cur ++ [b] := by
              rw [List.mem_append, List.mem_singleton]
              exact not_or.mpr ⟨hcur, fun heq => hcolon heq.symm⟩
            obtain ⟨hlt, hrest, hvalue⟩ := ih htext' hcur' h
            exact ⟨Nat.succ_lt_succ hlt, hrest, hvalue⟩

/-- The decoder reads a line whose first character is not a delimiter like every other part of a line. -/
theorem line_eq {b : UInt8} (h : ¬ (b = 58 ∨ b = 10)) (s : List UInt8) :
    Decoder.line (b :: s) = Decoder.lineLoop (headerMax - 1) (b :: s) [] none := by
  obtain ⟨hcolon, hnewline⟩ := not_or.mp h
  have hroom : headerMax - 1 = headerMax - 2 + 1 := by decide
  rw [Decoder.line, if_neg h, hroom, lineLoop_cons, if_neg hcolon, if_neg hnewline, List.nil_append]

/-- A line with a `:` is cut at the first one. -/
theorem exists_split (h : 58 ∈ text) : ∃ c, text = text.takeWhile (· ≠ 58) ++ 58 :: c
    ∧ (text.dropWhile (· ≠ 58)).tail = c := by
  have hsplit := List.takeWhile_append_dropWhile (p := fun b : UInt8 => decide (b ≠ 58)) (l := text)
  cases hdrop : text.dropWhile (· ≠ 58) with
  | nil =>
      have hall := List.dropWhile_eq_nil_iff.mp hdrop 58 h
      simp at hall
  | cons b c =>
      have hhead := List.head?_dropWhile_not (fun b : UInt8 => decide (b ≠ 58)) text
      rw [hdrop] at hhead
      simp only [List.head?_cons, ne_eq, decide_eq_false_iff_not, not_not] at hhead
      rw [hdrop, hhead] at hsplit
      exact ⟨c, hsplit.symm, rfl⟩

/-- A line whose value has no `:` has one at most. -/
theorem count_le_one (htext : ∀ b ∈ text, b ≠ 0)
    (h : ∀ value, lineValue text = some value → 58 ∉ value) : text.count 58 ≤ 1 := by
  by_cases hmem : 58 ∈ text
  · obtain ⟨c, hsplit, htail⟩ := exists_split hmem
    have hnone : 58 ∉ text.takeWhile (· ≠ 58) := fun hin => by
      simpa using List.mem_takeWhile_imp hin
    rw [lineValue, if_pos hmem, htail] at h
    have hc : ∀ b ∈ c, b ≠ 0 := by
      intro b hb
      apply htext b
      rw [hsplit]
      exact List.mem_append_right _ (List.mem_cons_of_mem _ hb)
    have hrest : 58 ∉ c := fun hin => h _ rfl (mem_trimmed hc (by decide) hin)
    rw [hsplit, List.count_append, List.count_cons_self, List.count_eq_zero.mpr hnone,
      List.count_eq_zero.mpr hrest]
  · rw [List.count_eq_zero.mpr hmem]
    exact Nat.zero_le 1

/-- What is decoded of a line with at most one `:`. -/
theorem lineLoop_text {room : Nat} (htext : ∀ b ∈ text, b ≠ 10) (hcount : text.count 58 ≤ 1)
    (hroom : text.length < room) :
    Decoder.lineLoop room (text ++ 10 :: rest) [] none = (.ok (lineName text, lineValue text), rest) := by
  obtain ⟨k, rfl⟩ : ∃ k, room = text.length + (k + 1) := ⟨room - text.length - 1, by omega⟩
  have hend (cur : List UInt8) (name : Option (List UInt8)) :
      Decoder.lineLoop (k + 1) (10 :: rest) cur name
        = match name with
          | some name => (.ok (name, some (trimmed cur)), rest)
          | none => (.ok (trimmed cur, none), rest) := by
    rw [lineLoop_cons, if_neg (show ¬ (10 : UInt8) = 58 by decide), if_pos rfl]
  by_cases hmem : 58 ∈ text
  · obtain ⟨c, hsplit, htail⟩ := exists_split hmem
    rw [lineName, lineValue, if_pos hmem, htail]
    have ha : ∀ b ∈ text.takeWhile (· ≠ 58), b ≠ 58 ∧ b ≠ 10 := fun b hb =>
      ⟨by simpa using List.mem_takeWhile_imp hb, htext b ((List.takeWhile_sublist _).mem hb)⟩
    generalize text.takeWhile (· ≠ 58) = a at hsplit ha
    clear htail
    subst hsplit
    have hnone : 58 ∉ c := by
      rw [List.count_append, List.count_cons_self] at hcount
      exact List.count_eq_zero.mp (by omega)
    have hc' : ∀ b ∈ c, b ≠ 58 ∧ b ≠ 10 := fun b hb =>
      ⟨fun heq => hnone (heq ▸ hb), htext b (List.mem_append_right _ (List.mem_cons_of_mem _ hb))⟩
    calc Decoder.lineLoop ((a ++ 58 :: c).length + (k + 1)) ((a ++ 58 :: c) ++ 10 :: rest) [] none
        = Decoder.lineLoop (a.length + (c.length + (k + 1) + 1)) (a ++ 58 :: (c ++ 10 :: rest)) []
            none := by
          rw [List.append_assoc, List.cons_append, List.length_append, List.length_cons]
          congr 1
          omega
      _ = Decoder.lineLoop (c.length + (k + 1)) (c ++ 10 :: rest) [] (some (trimmed a)) := by
          rw [lineLoop_append _ ha, lineLoop_cons, if_pos rfl, List.nil_append]
      _ = (.ok (trimmed a, some (trimmed c)), rest) := by
          rw [lineLoop_append _ hc', hend, List.nil_append]
  · have hall : text.takeWhile (· ≠ 58) = text := by
      rw [List.takeWhile_eq_self_iff]
      intro b hb
      simpa using fun heq : b = 58 => hmem (heq ▸ hb)
    have htext' : ∀ b ∈ text, b ≠ 58 ∧ b ≠ 10 := fun b hb => ⟨fun heq => hmem (heq ▸ hb), htext b hb⟩
    rw [lineName, lineValue, if_neg hmem, hall, lineLoop_append _ htext', hend, List.nil_append]

theorem chars_of_all {s : List UInt8} (h : s.all (fun b => b ≠ 0 && b ≠ 10) = true) :
    ∀ b ∈ s, b ≠ 0 ∧ b ≠ 10 := by
  simpa using h

end Decoder

/-! ### Trimming inside the line -/

section Own

variable {conn : ScrcConnection} {text rest : List UInt8} {start first : Nat} {name : Option Nat}

theorem update_behind {rbuf : Nat → UInt8} {i p : Nat} (h : p < i) :
    Function.update rbuf p 0 i = rbuf i := Function.update_of_ne (Nat.ne_of_gt h) _ _

/-- Where `trim` keeps to the line, it leaves what is behind the line as it is. -/
theorem TrimKeeps.behind {rbuf rbuf' : Nat → UInt8} {src p : Nat}
    (h : TrimKeeps (Function.update rbuf p 0) start first p)
    (htrim : trim (Function.update rbuf p 0) start = .ok (rbuf', src)) :
    ∀ i, p < i → rbuf' i = rbuf i := by
  intro i hi
  obtain ⟨lo, hi', hreach, -, hle⟩ := h
  obtain ⟨lo', hi'', hreach', hsame⟩ := exists_trimReach htrim
  rw [hreach] at hreach'
  cases hreach'
  rw [hsame i (Or.inr (by omega)), update_behind hi]

/-- A line whose start is behind the read position is not parsed inside its bytes. -/
theorem not_ok_of_lost (room : Nat) (h : conn.Healthy) (hview : conn.view = text ++ 10 :: rest)
    (htext : ∀ b ∈ text, b ≠ 10) (hlost : conn.rpos + room < start)
    (hown : TrimsOwn room conn start first) (conn' : ScrcConnection) (hl : HeaderLine) :
    headerLineLoop room conn start name ≠ .ok (conn', .ok hl) := by
  induction room generalizing conn text first with
  | zero =>
      intro hloop
      cases hloop
  | succ room ih =>
      have hnot {rbuf : Nat → UInt8} {p first : Nat} (hp : p ≤ conn.rpos) :
          ¬ TrimKeeps rbuf start first p := by
        rintro ⟨lo, hi, hreach, -, hle⟩
        have hstart := le_of_trimReach hreach
        omega
      cases text with
      | nil =>
          obtain ⟨conn₁, p, hblock, -, -, hb, -, hp⟩ := recvBlock_one_cons h hview
          rw [TrimsOwn, hblock] at hown
          simp only [hb, if_neg (show ¬ (10 : UInt8) = 58 by decide), if_pos] at hown
          exact absurd hown (hnot hp)
      | cons b text =>
          obtain ⟨conn₁, p, hblock, hunchanged, hrest, hb, hpos, hp⟩ := recvBlock_one_cons h hview
          rw [TrimsOwn, hblock] at hown
          rw [headerLineLoop, hblock]
          simp only [hb, if_neg (htext b List.mem_cons_self)] at hown
          simp only [bind, Except.bind, hb, if_neg (htext b List.mem_cons_self)]
          by_cases hcolon : b = 58
          · rw [if_pos hcolon] at hown
            exact absurd hown.1 (hnot hp)
          · rw [if_neg hcolon] at hown ⊢
            exact ih hunchanged.healthy hrest (fun c hc => htext c (List.mem_cons_of_mem b hc))
              (by omega) hown

/-- **Nothing is compacted.** A line that is parsed inside its bytes is read without compaction. -/
theorem kept_of_own (room : Nat) (h : conn.Healthy) (hview : conn.view = text ++ 10 :: rest)
    (htext : ∀ b ∈ text, b ≠ 10) (hfirst : first ≤ start) (hstart : start ≤ conn.rpos)
    (hroom : conn.rpos + room + 1 ≤ first + headerMax) (hown : TrimsOwn room conn start first)
    {conn' : ScrcConnection} {hl : HeaderLine}
    (hloop : headerLineLoop room conn start name = .ok (conn', .ok hl)) :
    LineKept room conn start ∧ RestStays (text.length + 1) conn.rlen conn.rpos conn.sockfd := by
  induction room generalizing conn text start name with
  | zero => cases hloop
  | succ room ih =>
      have hmax : headerMax + headerMax = bufsz := rfl
      obtain ⟨b, s, hcons⟩ : ∃ b s, text ++ 10 :: rest = b :: s := by
        cases text with
        | nil => exact ⟨10, rest, rfl⟩
        | cons b text => exact ⟨b, text ++ 10 :: rest, rfl⟩
      obtain ⟨conn₁, p, hblock, hunchanged, hrest, hb, hpos, -⟩ :=
        recvBlock_one_cons h (hview.trans hcons)
      rw [TrimsOwn, hblock] at hown
      rw [headerLineLoop, hblock] at hloop
      simp only [bind, Except.bind, hb] at hown hloop
      have hstays : conn.Stays := by
        by_contra hlost
        obtain ⟨hbig, hone⟩ := rpos_of_not_stays h hlost hblock
        have hnot {rbuf : Nat → UInt8} {first : Nat} : ¬ TrimKeeps rbuf start first p := by
          rintro ⟨lo, hi, hreach, -, hle⟩
          have hge := le_of_trimReach hreach
          omega
        split at hown
        · exact hnot hown.1
        · rename_i hcolon
          split at hown
          · exact hnot hown
          · rename_i hnewline
            rw [if_neg hcolon, if_neg hnewline] at hloop
            cases text with
            | nil => exact hnewline (List.cons.inj hcons).1.symm
            | cons c text =>
                obtain ⟨-, rfl⟩ := List.cons.inj hcons
                exact not_ok_of_lost room hunchanged.healthy hrest
                  (fun d hd => htext d (List.mem_cons_of_mem c hd)) (by omega) hown conn' hl hloop
      obtain ⟨rfl, hrpos, -⟩ := recvBlock_one h hstays hblock
      have hkeeps := restStays_succ (n := text.length) h hstays hblock
      rw [hkeeps, LineKept, hblock]
      simp only [hb]
      rw [Nat.min_eq_left (by omega)] at hown
      have hinside (hkeeps : TrimKeeps (Function.update conn₁.rbuf conn.rpos 0) start first conn.rpos) :
          TrimsInside (Function.update conn₁.rbuf conn.rpos 0) start conn.rpos := by
        obtain ⟨lo, hi, hreach, -, -⟩ := hkeeps
        exact trimsInside_of_reach hstart (Function.update_self _ _ _) hreach
      cases text with
      | nil =>
          obtain ⟨rfl, -⟩ := List.cons.inj hcons
          rw [if_neg (show ¬ (10 : UInt8) = 58 by decide), if_pos rfl] at hown ⊢
          exact ⟨⟨hstays, hinside hown⟩, trivial⟩
      | cons c text =>
          obtain ⟨rfl, rfl⟩ := List.cons.inj hcons
          have htext' : ∀ d ∈ text, d ≠ 10 := fun d hd => htext d (List.mem_cons_of_mem _ hd)
          have hnewline := htext _ List.mem_cons_self
          by_cases hcolon : c = 58
          · rw [if_pos hcolon] at hown hloop ⊢
            cases htrim : trim (Function.update conn₁.rbuf conn.rpos 0) start with
            | error f =>
                rw [htrim] at hloop
                cases hloop
            | ok r =>
                obtain ⟨rbuf', src⟩ := r
                rw [htrim] at hloop
                have hbehind : ∀ i, conn₁.rpos ≤ i → rbuf' i = conn₁.rbuf i :=
                  fun i hi => hown.1.behind htrim i (by omega)
                obtain ⟨hkept, hrests⟩ := @ih { conn₁ with rbuf := rbuf' } text (conn.rpos + 1) (some src)
                  (hunchanged.write hbehind).healthy ((view_congr hbehind).trans hrest) htext'
                  (by omega) (by show conn.rpos + 1 ≤ conn₁.rpos; omega)
                  (by show conn₁.rpos + room + 1 ≤ first + headerMax; omega)
                  (hown.2 rbuf' src htrim) hloop
                refine ⟨⟨hstays, hinside hown.1, fun rbuf₂ src₂ htrim₂ => ?_⟩, hrests⟩
                cases htrim₂
                exact hkept
          · rw [if_neg hcolon, if_neg hnewline] at hown hloop ⊢
            obtain ⟨hkept, hrests⟩ := ih hunchanged.healthy hrest htext' hfirst (by omega) (by omega)
              hown hloop
            exact ⟨⟨hstays, hkept⟩, hrests⟩

/-- **A blank name.** The first `trim` of a line gets in front of the line where there are only spaces in front
of the first `:`. -/
theorem exists_not_space (room : Nat) (h : conn.Healthy) (hview : conn.view = text ++ 10 :: rest)
    (htext : ∀ b ∈ text, b ≠ 10) (hstart : start < conn.rpos)
    (hblank : ∀ i, start ≤ i → i < conn.rpos → isspace (conn.rbuf i) = true)
    (hroom : text.length < room) (hkept : LineKept room conn start)
    (hown : TrimsOwn room conn start start) : ∃ b ∈ text.takeWhile (· ≠ 58), isspace b = false := by
  induction room generalizing conn text with
  | zero => exact absurd hroom (Nat.not_lt_zero _)
  | succ room ih =>
      obtain ⟨b, s, hcons⟩ : ∃ b s, text ++ 10 :: rest = b :: s := by
        cases text with
        | nil => exact ⟨10, rest, rfl⟩
        | cons b text => exact ⟨b, text ++ 10 :: rest, rfl⟩
      obtain ⟨conn₁, p, hblock, hunchanged, hrest, hb, hpos, -⟩ :=
        recvBlock_one_cons h (hview.trans hcons)
      obtain ⟨hstays, hkept⟩ := hkept
      obtain ⟨rfl, hrpos, hsame⟩ := recvBlock_one h hstays hblock
      rw [hblock] at hkept
      rw [TrimsOwn, hblock] at hown
      simp only [hb] at hkept hown
      rw [Nat.min_eq_left (by omega)] at hown
      have hnot : ¬ TrimKeeps (Function.update conn₁.rbuf conn.rpos 0) start start conn.rpos := by
        rintro ⟨lo, hi, hreach, hle, -⟩
        have hlt := reach_of_blank hreach hstart (Function.update_self _ _ _) fun i hi hip => by
          rw [Function.update_of_ne (by omega), hsame i hip]
          exact hblank i hi hip
        omega
      cases text with
      | nil =>
          obtain ⟨rfl, -⟩ := List.cons.inj hcons
          rw [if_neg (show ¬ (10 : UInt8) = 58 by decide), if_pos rfl] at hown
          exact absurd hown hnot
      | cons c text =>
          obtain ⟨rfl, rfl⟩ := List.cons.inj hcons
          by_cases hcolon : c = 58
          · rw [if_pos hcolon] at hown
            exact absurd hown.1 hnot
          · rw [List.takeWhile_cons_of_pos (by simpa using hcolon)]
            cases hspace : isspace c with
            | false => exact ⟨c, List.mem_cons_self, hspace⟩
            | true =>
                have hnewline := htext c List.mem_cons_self
                rw [if_neg hcolon, if_neg hnewline] at hkept hown
                obtain ⟨d, hd, hnot⟩ := ih hunchanged.healthy hrest
                  (fun d hd => htext d (List.mem_cons_of_mem c hd)) (by omega)
                  (fun i hi hip => by
                    rcases Nat.lt_succ_iff_lt_or_eq.mp (hrpos ▸ hip) with hlt | rfl
                    · rw [hsame i hlt]
                      exact hblank i hi hlt
                    · rwa [hb])
                  (Nat.lt_of_succ_lt_succ hroom) hkept hown
                exact ⟨d, List.mem_cons_of_mem c hd, hnot⟩

/-- **Inside the line.** Where nothing is compacted and there is something that is not a space in front of the
first `:`, a line is read without compaction and trimmed inside its bytes. -/
theorem own_of_stays (room : Nat) (h : conn.Healthy) (hview : conn.view = text ++ 10 :: rest)
    (htext : ∀ b ∈ text, b ≠ 0 ∧ b ≠ 10) (hfirst : first ≤ start) (hstart : start ≤ conn.rpos)
    (hchars : ∀ i, start ≤ i → i < conn.rpos → conn.rbuf i ≠ 0 ∧ conn.rbuf i ≠ 10)
    (hguard : (∃ j, first ≤ j ∧ j < conn.rpos ∧ isspace (conn.rbuf j) = false)
      ∨ ∃ b ∈ text.takeWhile (· ≠ 58), isspace b = false)
    (hrests : RestStays (text.length + 1) conn.rlen conn.rpos conn.sockfd) :
    LineKept room conn start ∧ TrimsOwn room conn start first := by
  induction room generalizing conn text start with
  | zero => exact ⟨trivial, trivial⟩
  | succ room ih =>
      obtain ⟨b, s, hcons⟩ : ∃ b s, text ++ 10 :: rest = b :: s := by
        cases text with
        | nil => exact ⟨10, rest, rfl⟩
        | cons b text => exact ⟨b, text ++ 10 :: rest, rfl⟩
      obtain ⟨conn₁, p, hblock, hunchanged, hrest, hb, hpos, -⟩ :=
        recvBlock_one_cons h (hview.trans hcons)
      have hstays := hrests.stays
      obtain ⟨rfl, hrpos, hsame⟩ := recvBlock_one h hstays hblock
      rw [restStays_succ h hstays hblock] at hrests
      have hrlen := hunchanged.healthy.bounded.rpos_le
      have hfull := hunchanged.healthy.bounded.rlen_le
      rw [LineKept, TrimsOwn, hblock]
      simp only [hb]
      rw [Nat.min_eq_left (by omega)]
      have hbelow : ∀ i < conn.rpos, Function.update conn₁.rbuf conn.rpos 0 i = conn.rbuf i :=
        fun i hi => (Function.update_of_ne (Nat.ne_of_lt hi) _ _).trans (hsame i hi)
      have hcur : ∀ c ∈ slice conn.rbuf start (conn.rpos - start), c ≠ 0 ∧ c ≠ 10 := by
        intro c hc
        obtain ⟨i, hi, rfl⟩ := List.mem_map.mp hc
        have hlt := List.mem_range.mp hi
        exact hchars _ (by omega) (by omega)
      -- what `trim` does at a delimiter behind something that is not a space
      have hdelim {j : Nat} (hj : first ≤ j) (hlt : j < conn.rpos) (hspace : isspace (conn.rbuf j) = false) :
          TrimsInside (Function.update conn₁.rbuf conn.rpos 0) start conn.rpos
            ∧ TrimKeeps (Function.update conn₁.rbuf conn.rpos 0) start first conn.rpos
            ∧ ∀ rbuf' src, trim (Function.update conn₁.rbuf conn.rpos 0) start = .ok (rbuf', src) →
                rbuf' conn.rpos = 0 ∧ ∀ i, conn.rpos < i → rbuf' i = conn₁.rbuf i := by
        have hslice : slice (Function.update conn₁.rbuf conn.rpos 0) start (conn.rpos - start)
            = slice conn.rbuf start (conn.rpos - start) :=
          slice_congr fun i hi => hbelow _ (by omega)
        have hinside : TrimsInside (Function.update conn₁.rbuf conn.rpos 0) start conn.rpos := by
          refine Or.inr ⟨j, ?_, by rwa [hbelow j hlt]⟩
          rw [hslice, List.takeWhile_eq_self_iff.mpr (by simpa using fun c hc => (hcur c hc).1),
            length_slice]
          omega
        obtain ⟨rbuf', src, htrim, -, -, hterm, habove, -⟩ :=
          trim_line hstart (by omega) rfl (fun c hc => (hcur c hc).2) hsame hinside
        obtain ⟨lo, hi, hreach, -⟩ := exists_trimReach htrim
        obtain ⟨hlo, hhi⟩ := reach_le hreach hstart (Function.update_self _ _ _)
          (fun i hi hip => by rw [hbelow i hip]; exact hchars i hi hip) hlt (by rwa [hbelow j hlt])
        refine ⟨hinside, ⟨lo, hi, hreach, by omega, hhi⟩, fun rbuf₂ src₂ htrim₂ => ?_⟩
        rw [htrim] at htrim₂
        cases htrim₂
        exact ⟨hterm, habove⟩
      cases text with
      | nil =>
          obtain ⟨rfl, -⟩ := List.cons.inj hcons
          obtain ⟨j, hj, hlt, hspace⟩ := hguard.resolve_right (by simp)
          obtain ⟨hinside, hkeeps, -⟩ := hdelim hj hlt hspace
          rw [if_neg (show ¬ (10 : UInt8) = 58 by decide), if_pos rfl]
          exact ⟨⟨hstays, hinside⟩, hkeeps⟩
      | cons c text =>
          obtain ⟨rfl, rfl⟩ := List.cons.inj hcons
          have htext' : ∀ d ∈ text, d ≠ 0 ∧ d ≠ 10 := fun d hd => htext d (List.mem_cons_of_mem _ hd)
          obtain ⟨hzero, hnewline⟩ := htext _ List.mem_cons_self
          by_cases hcolon : c = 58
          · obtain ⟨j, hj, hlt, hspace⟩ := hguard.resolve_right (by
              rw [List.takeWhile_cons_of_neg (by simpa using hcolon)]
              simp)
            obtain ⟨hinside, hkeeps, htrimmed⟩ := hdelim hj hlt hspace
            have hnext (rbuf' : Nat → UInt8) (src : Nat)
                (htrim : trim (Function.update conn₁.rbuf conn.rpos 0) start = .ok (rbuf', src)) :
                LineKept room { conn₁ with rbuf := rbuf' } (conn.rpos + 1)
                  ∧ TrimsOwn room { conn₁ with rbuf := rbuf' } (conn.rpos + 1) first := by
              obtain ⟨hterm, habove⟩ := htrimmed rbuf' src htrim
              have hbehind : ∀ i, conn₁.rpos ≤ i → rbuf' i = conn₁.rbuf i :=
                fun i hi => habove i (by omega)
              refine @ih { conn₁ with rbuf := rbuf' } text (conn.rpos + 1)
                (hunchanged.write hbehind).healthy ((view_congr hbehind).trans hrest) htext'
                (by omega) (by show conn.rpos + 1 ≤ conn₁.rpos; omega) (fun i hi hip => ?_) ?_ hrests
              · have hip' : i < conn₁.rpos := hip
                omega
              · exact Or.inl ⟨conn.rpos, by omega, by show conn.rpos < conn₁.rpos; omega, by
                  show isspace (rbuf' conn.rpos) = false
                  rw [hterm, isspace_zero]⟩
            rw [if_pos hcolon, if_pos hcolon]
            exact ⟨⟨hstays, hinside, fun rbuf' src htrim => (hnext rbuf' src htrim).1⟩, hkeeps,
              fun rbuf' src htrim => (hnext rbuf' src htrim).2⟩
          · rw [if_neg hcolon, if_neg hnewline, if_neg hcolon, if_neg hnewline]
            have hguard' : (∃ j, first ≤ j ∧ j < conn₁.rpos ∧ isspace (conn₁.rbuf j) = false)
                ∨ ∃ d ∈ text.takeWhile (· ≠ 58), isspace d = false := by
              rw [List.takeWhile_cons_of_pos (by simpa using hcolon)] at hguard
              rcases hguard with ⟨j, hj, hlt, hspace⟩ | ⟨d, hd, hspace⟩
              · exact Or.inl ⟨j, hj, by omega, by rwa [hsame j hlt]⟩
              · rcases List.mem_cons.mp hd with rfl | hd
                · exact Or.inl ⟨conn.rpos, by omega, by omega, by rwa [hb]⟩
                · exact Or.inr ⟨d, hd, hspace⟩
            obtain ⟨hkept, hown⟩ := ih hunchanged.healthy hrest htext' hfirst (by omega)
              (fun i hi hip => by
                rcases Nat.lt_succ_iff_lt_or_eq.mp (hrpos ▸ hip) with hlt | rfl
                · rw [hsame i hlt]
                  exact hchars i hi hlt
                · rw [hb]
                  exact ⟨hzero, hnewline⟩) hguard' hrests
            exact ⟨⟨hstays, hkept⟩, hown⟩

end Own

/-! ### The whole line -/

section Line

variable {conn : ScrcConnection} {text rest : List UInt8}

theorem PointsAt.unique {rbuf : Nat → UInt8} {p : Option Nat} {s s' : Option (List UInt8)}
    (h : PointsAt rbuf p s) (h' : PointsAt rbuf p s') : s = s' := by
  cases p with
  | none =>
      cases s with
      | some s => exact h.elim
      | none =>
          cases s' with
          | some s' => exact h'.elim
          | none => rfl
  | some p =>
      cases s with
      | none => exact h.elim
      | some s =>
          cases s' with
          | none => exact h'.elim
          | some s' =>
              have hstring : cString rbuf p = .ok s := h
              have hstring' : cString rbuf p = .ok s' := h'
              rw [hstring] at hstring'
              exact congrArg some (Except.ok.inj hstring')

/-- A line that is parsed has a name, at most one `:` and room, and nothing is compacted inside it. -/
theorem LineParsed.conditions {conn' : ScrcConnection} {hl : HeaderLine}
    (hparsed : conn.LineParsed text rest conn' hl) (h : conn.Healthy)
    (hview : conn.view = text ++ 10 :: rest) (htext : ∀ b ∈ text, b ≠ 0 ∧ b ≠ 10) :
    (∃ b ∈ text.takeWhile (· ≠ 58), isspace b = false) ∧ text.count 58 ≤ 1
      ∧ text.length + 1 < headerMax ∧ conn.LineStays text.length := by
  have hmax : headerMax - 2 + 2 = headerMax := by decide
  have hrecv := hparsed.recv
  have hown := hparsed.own
  cases text with
  | nil =>
      obtain ⟨conn₁, p, hblock, -, -, hb, -⟩ := recvBlock_one_cons h hview
      rw [recvHeaderLine, hblock] at hrecv
      simp only [bind, Except.bind, hb] at hrecv
      rw [if_pos (Or.inr trivial)] at hrecv
      cases hrecv
  | cons b text =>
      obtain ⟨conn₁, p, hblock, hunchanged, hrest, hb, hpos, -⟩ := recvBlock_one_cons h hview
      have htext' : ∀ c ∈ text, c ≠ 10 := fun c hc => (htext c (List.mem_cons_of_mem b hc)).2
      rw [recvHeaderLine, hblock] at hrecv
      rw [LineOwn, hblock] at hown
      simp only [bind, Except.bind, hb] at hrecv hown
      by_cases hdelim : b = 58 ∨ b = 10
      · rw [if_pos hdelim] at hrecv
        cases hrecv
      · rw [if_neg hdelim] at hrecv
        replace hown := hown hdelim
        obtain ⟨hkept, hrests⟩ := kept_of_own (headerMax - 2) hunchanged.healthy hrest htext'
          (Nat.le_refl p) (by omega) (by omega) hown hrecv
        have hlinekept : conn.HeaderLineKept := by
          rw [HeaderLineKept, hblock]
          exact fun _ => hkept
        obtain ⟨conn₂, r, hdecodes, -, -, hagrees⟩ := recvHeaderLine_decodes h hlinekept
        rw [hparsed.recv] at hdecodes
        cases hdecodes
        rw [hview, List.cons_append, line_eq hdelim, ← List.cons_append] at hagrees
        cases hline : Decoder.lineLoop (headerMax - 1) ((b :: text) ++ 10 :: rest) [] none with
        | mk l s =>
            rw [hline] at hagrees
            cases l with
            | error ret => exact hagrees.elim
            | ok l =>
                obtain ⟨hroom, -, hvalue⟩ :=
                  lineLoop_ok (fun c hc => (htext c hc).2) List.not_mem_nil hline
                rw [List.length_cons] at hroom ⊢
                refine ⟨?_, ?_, by omega, fun conn₂ p₂ hblock₂ => ?_⟩
                · obtain ⟨hcolon, -⟩ := not_or.mp hdelim
                  rw [List.takeWhile_cons_of_pos (by simpa using hcolon)]
                  cases hspace : isspace b with
                  | false => exact ⟨b, List.mem_cons_self, hspace⟩
                  | true =>
                      obtain ⟨c, hc, hnot⟩ := exists_not_space (headerMax - 2) hunchanged.healthy hrest
                        htext' (by omega) (fun i hi hip => by
                          obtain rfl : i = p := by omega
                          rwa [hb]) (by omega) hkept hown
                      exact ⟨c, List.mem_cons_of_mem b hc, hnot⟩
                · -- the value that is returned has no `:`, and what is behind the first one has the others
                  apply count_le_one fun c hc => (htext c hc).1
                  rwa [← hagrees.2.unique hparsed.value]
                · rw [hblock] at hblock₂
                  cases hblock₂
                  exact hrests

theorem exists_lineParsed (h : conn.Healthy) (hview : conn.view = text ++ 10 :: rest)
    (htext : ∀ b ∈ text, b ≠ 0 ∧ b ≠ 10) (hname : ∃ b ∈ text.takeWhile (· ≠ 58), isspace b = false)
    (hcount : text.count 58 ≤ 1) (hroom : text.length + 1 < headerMax)
    (hstays : conn.LineStays text.length) : ∃ conn' hl, conn.LineParsed text rest conn' hl := by
  cases text with
  | nil =>
      obtain ⟨b, hb, -⟩ := hname
      cases hb
  | cons b text =>
      have hcolon : b ≠ 58 := by
        rintro rfl
        obtain ⟨c, hc, -⟩ := hname
        rw [List.takeWhile_cons_of_neg (by simp)] at hc
        cases hc
      have hdelim : ¬ (b = 58 ∨ b = 10) := not_or.mpr ⟨hcolon, (htext b List.mem_cons_self).2⟩
      obtain ⟨conn₁, p, hblock, hunchanged, hrest, hb, hpos, -⟩ := recvBlock_one_cons h hview
      have hguard : (∃ j, p ≤ j ∧ j < conn₁.rpos ∧ isspace (conn₁.rbuf j) = false)
          ∨ ∃ c ∈ text.takeWhile (· ≠ 58), isspace c = false := by
        obtain ⟨c, hc, hspace⟩ := hname
        rw [List.takeWhile_cons_of_pos (by simpa using hcolon)] at hc
        rcases List.mem_cons.mp hc with rfl | hc
        · exact Or.inl ⟨p, Nat.le_refl p, by omega, by rwa [hb]⟩
        · exact Or.inr ⟨c, hc, hspace⟩
      obtain ⟨hkept, hown⟩ := own_of_stays (headerMax - 2) hunchanged.healthy hrest
        (fun c hc => htext c (List.mem_cons_of_mem b hc)) (Nat.le_refl p) (by omega)
        (fun i hi hip => by
          obtain rfl : i = p := by omega
          rw [hb]
          exact htext b List.mem_cons_self)
        hguard (hstays conn₁ p hblock)
      have hlinekept : conn.HeaderLineKept := by
        rw [HeaderLineKept, hblock]
        exact fun _ => hkept
      obtain ⟨conn', r, hrecv, -, hview', hagrees⟩ := recvHeaderLine_decodes h hlinekept
      have hline : Decoder.line conn.view
          = (.ok (lineName (b :: text), lineValue (b :: text)), rest) := by
        rw [hview, List.cons_append, line_eq hdelim, ← List.cons_append]
        exact lineLoop_text (fun c hc => (htext c hc).2) hcount (by omega)
      rw [hline] at hview' hagrees
      cases r with
      | error ret => exact hagrees.elim
      | ok hl =>
          refine ⟨conn', hl, hrecv, hagrees.1, hagrees.2, hview', ?_⟩
          rw [LineOwn, hblock]
          exact fun _ => hown

/-- **Header lines.** A line is parsed as the protocol says exactly when there is something that is not a space
in front of its first `:`, it has no other `:`, it is shorter than `HEADER_MAX`, and no refill compacts the
buffer inside it. -/
theorem lineParsed_iff (h : conn.Healthy) (hview : conn.view = text ++ 10 :: rest)
    (htext : ∀ b ∈ text, b ≠ 0 ∧ b ≠ 10) :
    (∃ conn' hl, conn.LineParsed text rest conn' hl)
      ↔ (∃ b ∈ text.takeWhile (· ≠ 58), isspace b = false) ∧ text.count 58 ≤ 1
        ∧ text.length + 1 < headerMax ∧ conn.LineStays text.length := by
  constructor
  · rintro ⟨conn', hl, hparsed⟩
    exact hparsed.conditions h hview htext
  · rintro ⟨hname, hcount, hroom, hstays⟩
    exact exists_lineParsed h hview htext hname hcount hroom hstays

end Line

/-- A line with a value. -/
theorem lineParsed_status : ∃ conn' hl, (fresh (fun _ => 0) [] (ascii "Status: 0\n")).LineParsed
    (ascii "Status: 0") [] conn' hl := by
  have hview : (fresh (fun _ => 0) [] (ascii "Status: 0\n")).view = ascii "Status: 0" ++ [10] := by decide
  exact (lineParsed_iff (healthy_fresh _ _) hview (chars_of_all (by decide))).mpr
    ⟨⟨83, by decide⟩, by decide, by decide, lineStays_fresh _ (by decide) (by decide)⟩

/-- A value with a `:` in it. -/
theorem not_lineParsed_colons : ¬ ∃ conn' hl, (fresh (fun _ => 0) [] (ascii "a:b:c\n")).LineParsed
    (ascii "a:b:c") [] conn' hl := by
  have hview : (fresh (fun _ => 0) [] (ascii "a:b:c\n")).view = ascii "a:b:c" ++ [10] := by decide
  rintro ⟨conn', hl, hparsed⟩
  obtain ⟨-, hcount, -⟩ := hparsed.conditions (healthy_fresh _ _) hview (chars_of_all (by decide))
  exact absurd hcount (by decide)

end Scroller.ScrcConnection

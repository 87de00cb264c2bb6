import Scroller.ScrcSend

/-!
# The text of a request

The lengths that `snprintf` returns are used as the numbers of bytes that it wrote. A request is sent whole, or not at
all and with an error, exactly if its text fits in the buffer and no `send` fails in the middle of it, or if the first
`send` fails.
-/

namespace Scroller

open ByteMemory

namespace ScrcConnection

/-- The text of a header. -/
def headerText (user : CStr) (catalog : Option CStr) : List UInt8 :=
  userLine user ++ catalog.elim [] catalogLine ++ ascii "$$\n"

/-- Exactly the text was sent, or there was an error and nothing was sent. -/
def SentWhole (sockfd : Outbound) (text : List UInt8) : Except Fault (Outbound × UInt32) → Prop
  | .ok (sockfd', ret) =>
      ret = scrcOk ∧ sockfd'.written = sockfd.written ++ text ∨ ret ≠ scrcOk ∧ sockfd'.written = sockfd.written
  | .error _ => False

/-- No `send` fails before a number of bytes have been moved. -/
def Delivers : List Transfer → Nat → Prop
  | _, 0 => True
  | [], _ => True
  | .interrupted :: outcomes, n => Delivers outcomes n
  | .closed :: outcomes, n => Delivers outcomes n
  | .failed :: _, _ => False
  | .moved more :: outcomes, n => Delivers outcomes (n - (more + 1))

/-- A `send` fails before any byte has been moved. -/
def Refuses : List Transfer → Prop
  | [] => False
  | .interrupted :: outcomes => Refuses outcomes
  | .closed :: outcomes => Refuses outcomes
  | .failed :: _ => True
  | .moved _ :: _ => False

/-- The pieces of a header start in the buffer; one that is longer than an `int` is not counted. -/
def Starts (user : CStr) (catalog : Option CStr) : Prop :=
  (userLine user).length ≤ bufsz ∧ ∀ name, catalog = some name →
    (userLine user).length + (catalogLine name).length ≤ bufsz ∨ intMax < (catalogLine name).length

/-! ### The socket -/

theorem sendBlockLoop_delivers {outcomes : List Transfer} {data : List UInt8} (written : List UInt8)
    (h : Delivers outcomes data.length) :
    (sendBlockLoop written outcomes data).2 = scrcOk
      ∧ (sendBlockLoop written outcomes data).1.written = written ++ data := by
  induction outcomes generalizing written data with
  | nil => cases data <;> simp [sendBlockLoop]
  | cons t outcomes ih =>
      cases data with
      | nil => simp [sendBlockLoop]
      | cons b data =>
          cases t with
          | interrupted => exact ih written h
          | closed => exact ih written h
          | failed => exact h.elim
          | moved more =>
              have hrest := @ih ((b :: data).drop (more + 1)) (written ++ (b :: data).take (more + 1))
                (by rw [List.length_drop]; exact h)
              rw [List.append_assoc, List.take_append_drop] at hrest
              exact hrest

theorem sendBlockLoop_fails {outcomes : List Transfer} {data : List UInt8} (written : List UInt8)
    (h : ¬ Delivers outcomes data.length) :
    (sendBlockLoop written outcomes data).2 = scrcSendError
      ∧ ((sendBlockLoop written outcomes data).1.written = written ↔ Refuses outcomes)
      ∧ written.length ≤ (sendBlockLoop written outcomes data).1.written.length := by
  induction outcomes generalizing written data with
  | nil =>
      refine absurd ?_ h
      cases data <;> trivial
  | cons t outcomes ih =>
      cases data with
      | nil => exact absurd trivial h
      | cons b data =>
          cases t with
          | interrupted => exact ih written h
          | closed => exact ih written h
          | failed => exact ⟨rfl, iff_of_true rfl trivial, Nat.le_refl _⟩
          | moved more =>
              obtain ⟨hret, -, hle⟩ := @ih ((b :: data).drop (more + 1))
                (written ++ (b :: data).take (more + 1)) (by rw [List.length_drop]; exact h)
              have hlong : written.length < (written ++ (b :: data).take (more + 1)).length := by
                rw [List.length_append]
                simp
              refine ⟨hret, iff_of_false (fun heq => ?_) id, Nat.le_of_lt (Nat.lt_of_lt_of_le hlong hle)⟩
              have hlt := Nat.lt_of_lt_of_le hlong hle
              rw [show sendBlockLoop written (.moved more :: outcomes) (b :: data) = sendBlockLoop
                (written ++ (b :: data).take (more + 1)) outcomes ((b :: data).drop (more + 1)) from rfl] at heq
              rw [heq] at hlt
              exact Nat.lt_irrefl _ hlt

theorem not_delivers_of_refuses {outcomes : List Transfer} (h : Refuses outcomes) {n : Nat} (hn : n ≠ 0) :
    ¬ Delivers outcomes n := by
  obtain ⟨n, rfl⟩ := Nat.exists_eq_succ_of_ne_zero hn
  induction outcomes with
  | nil => exact h.elim
  | cons t outcomes ih =>
      cases t with
      | interrupted => exact ih h
      | closed => exact ih h
      | failed => exact id
      | moved more => exact h.elim

/-- A block is framed as a text exactly if it is the text and goes through, or if there is a block and its first `send`
fails. -/
theorem framed_sendBlock_iff {sockfd : Outbound} {text : List UInt8} (data : Nat → UInt8) (len : Int) :
    SentWhole sockfd text (.ok (sendBlock sockfd data len)) ↔
      slice data 0 len.toNat = text ∧ Delivers sockfd.outcomes text.length
        ∨ len.toNat ≠ 0 ∧ Refuses sockfd.outcomes := by
  have hlen : (slice data 0 len.toNat).length = len.toNat := length_slice _ _ _
  by_cases hdelivers : Delivers sockfd.outcomes (slice data 0 len.toNat).length
  · obtain ⟨hret, hwritten⟩ := sendBlockLoop_delivers sockfd.written hdelivers
    constructor
    · rintro (⟨-, hsent⟩ | ⟨hne, -⟩)
      · have htext : slice data 0 len.toNat = text := List.append_cancel_left (hwritten.symm.trans hsent)
        exact .inl ⟨htext, htext ▸ hdelivers⟩
      · exact absurd hret hne
    · rintro (⟨htext, -⟩ | ⟨hne, hrefuses⟩)
      · exact .inl ⟨hret, htext ▸ hwritten⟩
      · exact absurd hdelivers (not_delivers_of_refuses hrefuses (by rwa [hlen]))
  · obtain ⟨hret, hwritten, -⟩ := sendBlockLoop_fails sockfd.written hdelivers
    constructor
    · rintro (⟨hok, -⟩ | ⟨-, hsent⟩)
      · exact absurd (hret.symm.trans hok) (by decide)
      · refine .inr ⟨fun hzero => hdelivers ?_, hwritten.mp hsent⟩
        rw [hlen, hzero]
        cases sockfd.outcomes <;> trivial
    · rintro (⟨htext, hall⟩ | ⟨-, hrefuses⟩)
      · exact absurd (htext ▸ hall) hdelivers
      · have hne : (sendBlockLoop sockfd.written sockfd.outcomes (slice data 0 len.toNat)).2 ≠ scrcOk := by
          rw [hret]
          decide
        exact .inr ⟨hne, hwritten.mpr hrefuses⟩

/-! ### The buffer -/

/-- What `snprintf` writes into the room behind `len`. -/
def fitted (len : Nat) (text : List UInt8) : List UInt8 :=
  if bufsz - len = 0 then [] else text.take (bufsz - len - 1) ++ [0]

theorem length_fitted_le (len : Nat) (text : List UInt8) : (fitted len text).length ≤ bufsz - len := by
  unfold fitted
  split
  · exact Nat.zero_le _
  · rw [List.length_append, List.length_take, List.length_singleton]
    omega

theorem appendText_start {buffer : Nat → UInt8} {len : Nat} {text : List UInt8} (hlen : len ≤ bufsz) :
    appendText buffer len text =
      if (intMax : Int) < len + snprintfLength text then .error .signedOverflow
      else pure (write buffer len (fitted len text), len + snprintfLength text) := by
  have hsize : (((bufsz : Int) - len) % 2 ^ 64).toNat = bufsz - len := by
    have hbufsz : bufsz = 65536 := rfl
    omega
  have hle := length_fitted_le len text
  have hinside : ¬ (fitted len text ≠ [] ∧ ¬ (0 ≤ (len : Int) ∧ len + ((fitted len text).length : Int) ≤ bufsz)) := by
    omega
  unfold appendText
  rw [hsize]
  exact if_neg hinside

theorem appendText_behind {buffer : Nat → UInt8} {len : Int} {text : List UInt8}
    (hlen : len = -1 ∨ (bufsz : Int) < len ∧ len ≤ intMax) : appendText buffer len text = .error .outOfBounds := by
  have hsize : (((bufsz : Int) - len) % 2 ^ 64).toNat ≠ 0 := by
    have hbufsz : bufsz = 65536 := rfl
    have hmax : intMax = 2147483647 := rfl
    omega
  unfold appendText
  simp only [if_neg hsize]
  refine if_pos ⟨by simp, fun hinside => ?_⟩
  have hbufsz : bufsz = 65536 := rfl
  omega

theorem slice_write_fits {buffer : Nat → UInt8} {len : Nat} {done text : List UInt8} (hdone : slice buffer 0 len = done)
    (hfits : len + text.length < bufsz) :
    slice (write buffer len (fitted len text)) 0 (len + text.length) = done ++ text := by
  have hcells : fitted len text = text ++ [0] := by
    rw [fitted, if_neg (by omega), List.take_of_length_le (by omega)]
  have happend := slice_write_append buffer 0 len (text ++ [0])
  rw [Nat.zero_add, List.length_append, ← Nat.add_assoc, List.length_singleton, slice_concat, hdone,
    ← List.append_assoc] at happend
  rw [hcells]
  exact (List.append_inj' happend rfl).1

/-- A text that does not fit leaves a null byte at the end of the buffer. -/
theorem write_full {buffer : Nat → UInt8} {len : Nat} {text : List UInt8} (hlen : len ≤ bufsz)
    (hfull : bufsz ≤ len + text.length) (hlast : len = bufsz → buffer (bufsz - 1) = 0) :
    write buffer len (fitted len text) (bufsz - 1) = 0 := by
  have hpos : 0 < bufsz := by decide
  by_cases hroom : bufsz - len = 0
  · rw [fitted, if_pos hroom, write_of_lt (by omega)]
    exact hlast (by omega)
  · have htake : (text.take (bufsz - len - 1)).length = bufsz - len - 1 := by
      rw [List.length_take]
      omega
    have hlength : bufsz - len - 1 < (text.take (bufsz - len - 1) ++ [0]).length := by
      rw [List.length_append, htake]
      exact Nat.lt_succ_self _
    have hplace : bufsz - 1 = len + (bufsz - len - 1) := by omega
    rw [fitted, if_neg hroom, hplace, write_add hlength, List.getElem_append_right (by omega)]
    simp [htake]

theorem null_mem_slice {buffer : Nat → UInt8} {i n : Nat} (hi : i < n) (hnull : buffer i = 0) :
    0 ∈ slice buffer 0 n := by
  rw [slice, List.mem_map]
  exact ⟨i, List.mem_range.mpr hi, by rw [Nat.zero_add, hnull]⟩

/-! ### Requests -/

theorem framed_last_iff {sockfd : Outbound} {buffer : Nat → UInt8} {len : Nat} {done text : List UInt8}
    (hlen : done.length = len) (hle : len ≤ bufsz) (hdone : len < bufsz → slice buffer 0 len = done)
    (hlast : len = bufsz → buffer (bufsz - 1) = 0) (hmax : len + text.length ≤ intMax) (hne : text ≠ [])
    (hnul : 0 ∉ done ++ text) :
    SentWhole sockfd (done ++ text) (do
        let (buffer, len) ← appendText buffer len text
        return sendBlock sockfd buffer len) ↔
      len + text.length < bufsz ∧ Delivers sockfd.outcomes (done ++ text).length ∨ Refuses sockfd.outcomes := by
  have hlength : snprintfLength text = text.length := if_pos (by omega)
  have hpos : text.length ≠ 0 := fun hzero => hne (List.length_eq_zero_iff.mp hzero)
  have hnat : ((len : Int) + text.length).toNat = len + text.length := by omega
  rw [appendText_start hle, hlength, if_neg (by omega)]
  refine (framed_sendBlock_iff _ _).trans ?_
  rw [hnat]
  refine or_congr (and_congr_left' ?_) (and_iff_right (by omega))
  constructor
  · intro hslice
    by_contra hfull
    have hnull : write buffer len (fitted len text) (bufsz - 1) = 0 := write_full hle (Nat.le_of_not_lt hfull) hlast
    have hbufsz : 0 < bufsz := by decide
    exact hnul (hslice ▸ null_mem_slice (by omega) hnull)
  · intro hfits
    exact slice_write_fits (hdone (by omega)) hfits

theorem null_not_mem_append {s : List UInt8} (hs : 0 ∉ s) {t : List UInt8} (ht : 0 ∉ t) : 0 ∉ s ++ t := by
  rw [List.mem_append, not_or]
  exact ⟨hs, ht⟩

theorem sendQuery_framed_iff (sockfd : Outbound) (buffer : Nat → UInt8) {query : CStr} (hne : query.bytes ≠ []) :
    SentWhole sockfd (queryText query) (sendQuery sockfd buffer query) ↔
      (queryText query).length < bufsz ∧ Delivers sockfd.outcomes (queryText query).length
        ∨ (queryText query).length ≤ intMax ∧ Refuses sockfd.outcomes := by
  have htext : queryText query ≠ [] := List.append_ne_nil_of_left_ne_nil hne _
  have hnul : 0 ∉ queryText query := null_not_mem_append query.nul (by decide)
  unfold sendQuery
  rw [if_neg hne]
  by_cases hmax : (queryText query).length ≤ intMax
  · have hlast := @framed_last_iff sockfd buffer 0 [] (queryText query)
      rfl (Nat.zero_le _) (fun _ => rfl) (fun h => absurd h (by decide)) (by omega) htext hnul
    rw [Nat.zero_add] at hlast
    rw [and_iff_right hmax]
    exact hlast
  · have hlength : snprintfLength (queryText query) = -1 := if_neg hmax
    have hstart := @appendText_start buffer 0 (queryText query) (Nat.zero_le bufsz)
    rw [hlength, if_neg (by decide)] at hstart
    change SentWhole sockfd (queryText query) (do
      let (buffer, len) ← appendText buffer ((0 : Nat) : Int) (queryText query)
      return sendBlock sockfd buffer len) ↔ _
    rw [hstart]
    refine (framed_sendBlock_iff _ _).trans (iff_of_false ?_ ?_)
    · rintro (⟨hslice, -⟩ | ⟨hzero, -⟩)
      · exact htext hslice.symm
      · exact hzero rfl
    · have hbufsz : bufsz ≤ intMax := by decide
      rintro (⟨hlt, -⟩ | ⟨hle, -⟩)
      · omega
      · exact hmax hle

section Header

variable {sockfd : Outbound} {header : Nat → UInt8} {user : CStr}

theorem null_not_mem_userLine : 0 ∉ userLine user :=
  null_not_mem_append (null_not_mem_append (by decide) user.nul) (by decide)

theorem null_not_mem_catalogLine {catalog : CStr} : 0 ∉ catalogLine catalog :=
  null_not_mem_append (null_not_mem_append (by decide) catalog.nul) (by decide)

theorem userLine_length_pos : 0 < (userLine user).length := by
  rw [userLine, List.length_append]
  exact Nat.add_pos_right _ Nat.one_pos

/-- The piece behind the lines of a header. -/
def sendEnd (sockfd : Outbound) (header : Nat → UInt8) (len : Int) : Except Fault (Outbound × UInt32) := do
  let (header, len) ← appendText header len (ascii "$$\n")
  return sendBlock sockfd header len

theorem appendText_fits {len : Nat} {text : List UInt8} (hfits : len + text.length ≤ bufsz) :
    appendText header len text = pure (write header len (fitted len text), ((len + text.length : Nat) : Int)) := by
  have hbufsz : bufsz = 65536 := rfl
  have hmax : intMax = 2147483647 := rfl
  have hlength : snprintfLength text = text.length := if_pos (by omega)
  rw [appendText_start (by omega), hlength, if_neg (by omega)]
  rfl

theorem sendEnd_behind {len : Int} (hlen : len = -1 ∨ (bufsz : Int) < len ∧ len ≤ intMax) :
    sendEnd sockfd header len = .error .outOfBounds := by
  rw [sendEnd, appendText_behind hlen]
  rfl

theorem sendHeader_of_start {buffer : Nat → UInt8} {len : Int}
    (hstart : appendText header 0 (userLine user) = pure (buffer, len)) (catalog : Option CStr) :
    sendHeader sockfd header user catalog =
      match catalog with
      | none => sendEnd sockfd buffer len
      | some catalog => (do
          let (header, len) ← appendText buffer len (catalogLine catalog)
          sendEnd sockfd header len) := by
  unfold sendHeader sendEnd
  rw [hstart, pure_bind]
  cases catalog with
  | none => simp only [pure_bind]
  | some catalog => simp only

/-- A header whose user is longer than the buffer does not come back. -/
theorem sendHeader_of_long_user (hlong : bufsz < (userLine user).length) (catalog : Option CStr) :
    ∃ e, sendHeader sockfd header user catalog = .error e := by
  have hlen : snprintfLength (userLine user) = -1
      ∨ (bufsz : Int) < snprintfLength (userLine user) ∧ snprintfLength (userLine user) ≤ intMax := by
    unfold snprintfLength
    split
    · exact .inr ⟨by omega, by omega⟩
    · exact .inl rfl
  have hstart := @appendText_start header 0 (userLine user) (Nat.zero_le bufsz)
  have hmax : ¬ (intMax : Int) < snprintfLength (userLine user) := by
    have hpos : intMax = 2147483647 := rfl
    omega
  rw [Int.natCast_zero, Int.zero_add, if_neg hmax] at hstart
  rw [sendHeader_of_start hstart]
  cases catalog with
  | none => exact ⟨_, sendEnd_behind hlen⟩
  | some catalog =>
      dsimp only
      rw [appendText_behind hlen]
      exact ⟨_, rfl⟩

/-- The end of a header behind lines that are in the buffer. -/
theorem framed_sendEnd_iff {len : Nat} {done : List UInt8} (hlen : done.length = len) (hle : len ≤ bufsz)
    (hdone : len < bufsz → slice header 0 len = done) (hlast : len = bufsz → header (bufsz - 1) = 0) (hnul : 0 ∉ done) :
    SentWhole sockfd (done ++ ascii "$$\n") (sendEnd sockfd header len) ↔
      (done ++ ascii "$$\n").length < bufsz ∧ Delivers sockfd.outcomes (done ++ ascii "$$\n").length
        ∨ Refuses sockfd.outcomes := by
  have hend : (ascii "$$\n").length = 3 := by decide
  have hmax : len + (ascii "$$\n").length ≤ intMax := by
    have hbufsz : bufsz = 65536 := rfl
    have hint : intMax = 2147483647 := rfl
    omega
  have hlast := @framed_last_iff sockfd _ _ _ _ hlen hle hdone hlast hmax (by decide)
    (null_not_mem_append hnul (by decide))
  have hlength : len + (ascii "$$\n").length = (done ++ ascii "$$\n").length := by
    rw [List.length_append, hlen]
  rw [hlength] at hlast
  exact hlast

/-- The buffer behind the line of the user. -/
def withUser (header : Nat → UInt8) (user : CStr) : Nat → UInt8 := write header 0 (fitted 0 (userLine user))

theorem slice_withUser (hlt : (userLine user).length < bufsz) :
    slice (withUser header user) 0 (userLine user).length = userLine user := by
  have hslice := @slice_write_fits header 0 [] (userLine user) rfl
    (by rwa [Nat.zero_add])
  rwa [Nat.zero_add] at hslice

theorem withUser_full (hfull : (userLine user).length = bufsz) : withUser header user (bufsz - 1) = 0 :=
  write_full (Nat.zero_le _) (by rw [Nat.zero_add, hfull]) fun hzero => absurd hzero (by decide)

theorem sendHeader_of_user (huser : (userLine user).length ≤ bufsz) (catalog : Option CStr) :
    sendHeader sockfd header user catalog =
      match catalog with
      | none => sendEnd sockfd (withUser header user) (userLine user).length
      | some catalog => (do
          let (header, len) ← appendText (withUser header user) (userLine user).length (catalogLine catalog)
          sendEnd sockfd header len) := by
  have hfits : appendText header 0 (userLine user) = pure (withUser header user, ((userLine user).length : Int)) := by
    have hfits := @appendText_fits header 0 (userLine user) (by rwa [Nat.zero_add])
    rwa [Nat.zero_add, Int.natCast_zero] at hfits
  exact sendHeader_of_start hfits catalog

/-- A header whose lines do not start in the buffer is not sent. -/
theorem sendHeader_of_long_catalog {catalog : CStr} (huser : (userLine user).length ≤ bufsz)
    (hlong : bufsz < (userLine user).length + (catalogLine catalog).length)
    (hmax : (catalogLine catalog).length ≤ intMax) :
    ∃ e, sendHeader sockfd header user (some catalog) = .error e := by
  have hlength : snprintfLength (catalogLine catalog) = (catalogLine catalog).length := if_pos hmax
  rw [sendHeader_of_user huser]
  dsimp only
  rw [appendText_start huser, hlength]
  by_cases hover : (intMax : Int) < ((userLine user).length : Int) + (catalogLine catalog).length
  · rw [if_pos hover]
    exact ⟨_, rfl⟩
  · rw [if_neg hover, pure_bind]
    exact ⟨.outOfBounds, sendEnd_behind (.inr ⟨by omega, by omega⟩)⟩

/-- A catalog that is longer than an `int` takes one off the length. -/
theorem framed_of_huge_catalog {catalog : CStr} (huser : (userLine user).length ≤ bufsz)
    (hhuge : intMax < (catalogLine catalog).length) :
    SentWhole sockfd (headerText user (some catalog)) (sendHeader sockfd header user (some catalog)) ↔
      Refuses sockfd.outcomes := by
  have hbufsz : bufsz = 65536 := rfl
  have hint : intMax = 2147483647 := rfl
  have hpos := @userLine_length_pos user
  have hend : (ascii "$$\n").length = 3 := by decide
  have hlength : snprintfLength (catalogLine catalog) = -1 := if_neg (by omega)
  have hless : ((userLine user).length : Int) + -1 = (((userLine user).length - 1 : Nat) : Int) := by omega
  have hsnprintf : snprintfLength (ascii "$$\n") = 3 := by decide
  rw [sendHeader_of_user huser]
  dsimp only
  rw [appendText_start huser, hlength, if_neg (by omega), hless, pure_bind]
  generalize write (withUser header user) (userLine user).length (fitted (userLine user).length (catalogLine catalog))
    = buffer
  dsimp only
  rw [sendEnd, appendText_start (by omega), hsnprintf, if_neg (by omega), pure_bind]
  refine (framed_sendBlock_iff _ _).trans ?_
  constructor
  · rintro (⟨hslice, -⟩ | ⟨-, hrefuses⟩)
    · have hlen := congrArg List.length hslice
      rw [length_slice, headerText, List.length_append, List.length_append, hend] at hlen
      change _ = (userLine user).length + (catalogLine catalog).length + 3 at hlen
      omega
    · exact hrefuses
  · exact fun hrefuses => .inr ⟨by omega, hrefuses⟩

theorem sendHeader_framed_iff (sockfd : Outbound) (header : Nat → UInt8) (user : CStr) (catalog : Option CStr) :
    SentWhole sockfd (headerText user catalog) (sendHeader sockfd header user catalog) ↔
      (headerText user catalog).length < bufsz ∧ Delivers sockfd.outcomes (headerText user catalog).length
        ∨ Starts user catalog ∧ Refuses sockfd.outcomes := by
  have hlength : (headerText user catalog).length
      = (userLine user).length + (catalog.elim [] catalogLine).length + 3 := by
    rw [headerText, List.length_append, List.length_append]
    rfl
  by_cases huser : (userLine user).length ≤ bufsz
  · cases catalog with
    | none =>
        have hstarts : Starts user none := ⟨huser, nofun⟩
        have hnone : headerText user none = userLine user ++ ascii "$$\n" := by
          rw [headerText, Option.elim_none, List.append_nil]
        rw [and_iff_right hstarts, sendHeader_of_user huser, hnone]
        exact framed_sendEnd_iff rfl huser slice_withUser withUser_full null_not_mem_userLine
    | some catalog =>
        by_cases hfits : (userLine user).length + (catalogLine catalog).length ≤ bufsz
        · have hstarts : Starts user (some catalog) := by
            refine ⟨huser, fun name hname => ?_⟩
            cases hname
            exact .inl hfits
          rw [and_iff_right hstarts, sendHeader_of_user huser]
          dsimp only
          rw [appendText_fits hfits, pure_bind]
          exact framed_sendEnd_iff (List.length_append) hfits
            (fun hlt => slice_write_fits (slice_withUser (by omega)) hlt)
            (fun heq => write_full huser (Nat.le_of_eq heq.symm) withUser_full)
            (null_not_mem_append null_not_mem_userLine null_not_mem_catalogLine)
        · by_cases hhuge : intMax < (catalogLine catalog).length
          · have hstarts : Starts user (some catalog) := by
              refine ⟨huser, fun name hname => ?_⟩
              cases hname
              exact .inr hhuge
            rw [framed_of_huge_catalog huser hhuge, and_iff_right hstarts]
            refine ⟨.inr, fun h => h.resolve_left fun hsent => ?_⟩
            change _ = (userLine user).length + (catalogLine catalog).length + 3 at hlength
            exact hfits (by omega)
          · obtain ⟨e, herror⟩ := @sendHeader_of_long_catalog sockfd header user catalog huser
              (Nat.lt_of_not_le hfits) (Nat.le_of_not_lt hhuge)
            rw [herror]
            refine iff_of_false id ?_
            rintro (⟨hlt, -⟩ | ⟨hstarts, -⟩)
            · change _ = (userLine user).length + (catalogLine catalog).length + 3 at hlength
              omega
            · exact (hstarts.2 catalog rfl).elim hfits hhuge
  · obtain ⟨e, herror⟩ := @sendHeader_of_long_user sockfd header user (Nat.lt_of_not_le huser) catalog
    rw [herror]
    refine iff_of_false id ?_
    rintro (⟨hlt, -⟩ | ⟨hstarts, -⟩)
    · omega
    · exact huser hstarts.1

end Header

/-- **Requests.** A query or a header is sent whole, or not at all and with an error, exactly if its text and a null byte
fit in the buffer and no `send` fails in the middle, or if its first `send` fails with the pieces in the buffer. -/
theorem request_framed_iff (sockfd : Outbound) (stack : Nat → UInt8) :
    (∀ query : CStr, query.bytes ≠ [] →
      (SentWhole sockfd (queryText query) (sendQuery sockfd stack query) ↔
        (queryText query).length < bufsz ∧ Delivers sockfd.outcomes (queryText query).length
          ∨ (queryText query).length ≤ intMax ∧ Refuses sockfd.outcomes))
    ∧ ∀ user catalog, SentWhole sockfd (headerText user catalog) (sendHeader sockfd stack user catalog) ↔
        (headerText user catalog).length < bufsz ∧ Delivers sockfd.outcomes (headerText user catalog).length
          ∨ Starts user catalog ∧ Refuses sockfd.outcomes :=
  ⟨fun _ hne => sendQuery_framed_iff sockfd stack hne, fun user catalog => sendHeader_framed_iff sockfd stack user catalog⟩

theorem request_framed_short :
    SentWhole ⟨[.moved 1, .interrupted], []⟩ (queryText ⟨[97], by decide⟩)
      (sendQuery ⟨[.moved 1, .interrupted], []⟩ (fun _ => 7) ⟨[97], by decide⟩) :=
  ((request_framed_iff ⟨[.moved 1, .interrupted], []⟩ (fun _ => 7)).1 ⟨[97], by decide⟩ (by decide)).mpr
    (.inl ⟨by decide, trivial⟩)

/-- A query of 65532 bytes is sent with a null byte in the place of the last newline. -/
theorem query_not_framed :
    ∃ query : CStr, query.bytes.length = 65532
      ∧ ¬ SentWhole ⟨[], []⟩ (queryText query) (sendQuery ⟨[], []⟩ (fun _ => 7) query) := by
  obtain ⟨n, hn⟩ : ∃ n, n = 65532 := ⟨_, rfl⟩
  have hnul : 0 ∉ List.replicate n (97 : UInt8) := by
    intro hmem
    exact absurd (List.eq_of_mem_replicate hmem) (by decide)
  have hend : (ascii "\n$$\n").length = 4 := by decide
  have hlength : (queryText ⟨List.replicate n 97, hnul⟩).length = n + 4 := by
    rw [queryText, List.length_append, List.length_replicate, hend]
  refine ⟨⟨List.replicate n 97, hnul⟩, List.length_replicate.trans hn, fun hframed => ?_⟩
  have hne : List.replicate n (97 : UInt8) ≠ [] := by
    rw [Ne, List.replicate_eq_nil_iff]
    omega
  rcases (sendQuery_framed_iff ⟨[], []⟩ (fun _ => 7) hne).mp hframed with ⟨hlt, -⟩ | ⟨-, hrefuses⟩
  · have hbufsz : bufsz = 65536 := rfl
    omega
  · exact hrefuses

end ScrcConnection

end Scroller

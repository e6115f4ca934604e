import QueryLocator.Json.Reader
import QueryLocator.Proofs.ByteBoundaries
import QueryLocator.Proofs.PositionOrder

/-! # The line index with guarded steps

The operations that the line index is written with always give something: a difference below zero is
zero, and a cut inside a character goes back to where the character begins.  Here the index is read once
more with steps that may *trap* instead: words of 64 bits, accesses to a list that end with it, a search
by halving, and cuts of a text that must not split a character, which is seen from the bytes.

No step ever traps, for any line, column or offset, and the result is that of the index
(`guarded_index_never_traps`).  All of it rests on the starts of the lines being increasing boundaries
of the text.
-/
namespace QueryLocator

open Text Json

/-- What a guarded step may trap on. -/
inductive Trap where
  /-- A sum that is no word. -/
  | overflow
  /-- A difference below zero. -/
  | underflow
  /-- A place behind the end of a list or of a text, or a cut that ends before it begins. -/
  | outOfRange
  /-- A cut inside a character. -/
  | splitCharacter
  deriving DecidableEq, Repr

/-- Where a number stands in an increasing list, or where it would have to be put. -/
inductive Place where
  | found (i : Nat)
  | missing (i : Nat)
  deriving DecidableEq, Repr

namespace Place

/-- How many of the numbers are not above the one that was looked for. -/
def count : Place → Nat
  | found i => i + 1
  | missing i => i

/-- The place of the last number that is not above the one that was looked for. -/
def last : Place → Nat
  | found i => i
  | missing i => i - 1

theorem last_eq (place : Place) : place.last = place.count - 1 := by
  cases place <;> rfl

end Place

namespace Guarded

/-! ## Steps -/

/-- The sum of two words. -/
def add (a b : Nat) : Except Trap Nat :=
  if a + b ≤ maxUnsigned then .ok (a + b) else .error .overflow

/-- The difference of two words. -/
def sub (a b : Nat) : Except Trap Nat :=
  if b ≤ a then .ok (a - b) else .error .underflow

/-- The number at a place of a list. -/
def access (numbers : List Nat) (i : Nat) : Except Trap Nat :=
  match numbers[i]? with
  | some entry => .ok entry
  | none => .error .outOfRange

/-- The piece of a text between two offsets. -/
def cutOut (start stop : Nat) (text : List Char) : Except Trap (List Char) :=
  if stop < start ∨ byteSize text < stop then .error .outOfRange
  else if isByteBoundary start (encode text) && isByteBoundary stop (encode text) then
    .ok (slice start stop text)
  else .error .splitCharacter

/-- Goes back byte by byte to where a text can be cut. -/
def goBack (bytes : List UInt8) : Nat → Except Trap Nat
  | 0 => if isByteBoundary 0 bytes then .ok 0 else .error .underflow
  | offset + 1 => if isByteBoundary (offset + 1) bytes then .ok (offset + 1) else goBack bytes offset

/-- Looks for a number between two places of an increasing list by halving what is between them. -/
def search (numbers : List Nat) (target low high : Nat) : Except Trap Place :=
  if low < high then do
    let middle := low + (high - low) / 2
    let entry ← access numbers middle
    if entry = target then return .found middle
    else if entry < target then search numbers target (middle + 1) high
    else search numbers target low middle
  else return .missing low
termination_by high - low

/-! ## The index -/

/-- The offsets behind the terminators in some bytes, the first of which stands at an offset. -/
def startsFrom (offset : Nat) : List UInt8 → Except Trap (List Nat)
  | [] => .ok []
  | byte :: rest => do
    let next ← add offset 1
    let behind ← startsFrom next rest
    if byte = 0x0A ∨ (byte = 0x0D ∧ rest.head? ≠ some 0x0A) then return next :: behind
    else return behind

/-- The offsets at which the lines of a text start, seen from its bytes. -/
def starts (bytes : List UInt8) : Except Trap (List Nat) := do
  let behind ← startsFrom 0 bytes
  return 0 :: behind

variable (index : LineIndex)

/-- The content of a line, without its terminator. -/
def lineText (line : Nat) : Except Trap (Option (List Char)) :=
  match index.starts[line]? with
  | none => return none
  | some start => do
    let next ← add line 1
    let stop := (index.starts[next]?).getD (byteSize index.text)
    let piece ← cutOut start stop index.text
    return some (LineIndex.dropTerminator piece)

/-- Number of characters of a line, without its terminator. -/
def lineLength (line : Nat) : Except Trap (Option Nat) := do
  let content ← lineText index line
  return content.map List.length

/-- The byte offset of a position, or nothing when the document has no such line. -/
def offset? (position : Position) : Except Trap (Option Nat) := do
  match ← lineText index position.line with
  | none => return none
  | some content =>
    let start ← access index.starts position.line
    let offset ← add start (byteSize (content.take position.character))
    return some offset

/-- The cursor position of a byte offset. -/
def position (offset : Nat) : Except Trap Position := do
  let offset ← goBack (encode index.text) (min offset (byteSize index.text))
  let place ← search index.starts offset 0 index.starts.length
  let content ← lineText index place.last
  let content := content.getD []
  let start ← access index.starts place.last
  let distance ← sub offset start
  let passed ← cutOut 0 (min distance (byteSize content)) content
  return ⟨place.last, passed.length⟩

/-! ## When a step does not trap -/

section Steps
variable {a b start stop i entry offset : Nat} {numbers : List Nat} {text : List Char}

theorem add_eq_ok (h : a + b ≤ maxUnsigned) : add a b = .ok (a + b) :=
  if_pos h

theorem sub_eq_ok (h : b ≤ a) : sub a b = .ok (a - b) :=
  if_pos h

theorem access_eq_ok (h : numbers[i]? = some entry) : access numbers i = .ok entry := by
  rw [access, h]

/-- A cut between two boundaries, the first of which is not behind the second, splits nothing. -/
theorem cutOut_eq_ok (hle : start ≤ stop) (hstart : IsBoundary start text)
    (hstop : IsBoundary stop text) : cutOut start stop text = .ok (slice start stop text) := by
  have hend := hstop.le_byteSize
  rw [cutOut, if_neg (by omega), isByteBoundary_iff.mpr hstart, isByteBoundary_iff.mpr hstop]
  rfl

/-- **Going back ends at a boundary**, at the latest in front of the whole text. -/
theorem goBack_eq_ok (offset : Nat) (text : List Char) :
    goBack (encode text) offset = .ok (snap offset text) := by
  induction offset with
  | zero =>
    have hstart := isBoundary_zero text
    rw [goBack, if_pos (isByteBoundary_iff.mpr hstart), snap_of_isBoundary hstart]
  | succ offset ih =>
    rw [goBack]
    by_cases h : IsBoundary (offset + 1) text
    · rw [if_pos (isByteBoundary_iff.mpr h), snap_of_isBoundary h]
    · rw [if_neg (by rw [isByteBoundary_eq_false_iff.mpr h]; exact Bool.false_ne_true), ih, snap_succ h]

end Steps

/-! ## Searching -/

/-- The first numbers of a list are those that are not above a target, and there are so many of them. -/
structure Splits (numbers : List Nat) (target count : Nat) : Prop where
  count_le : count ≤ numbers.length
  le_iff : ∀ i entry, numbers[i]? = some entry → (entry ≤ target ↔ i < count)

section Search
variable {numbers : List Nat} {target count : Nat}

theorem Splits.length_takeWhile (h : Splits numbers target count) :
    (numbers.takeWhile (· ≤ target)).length = count := by
  induction numbers generalizing count with
  | nil => exact (Nat.le_zero.mp h.count_le).symm
  | cons entry rest ih =>
    have hfirst := h.le_iff 0 entry rfl
    cases count with
    | zero =>
      rw [List.takeWhile_cons_of_neg (by simpa using hfirst)]
      rfl
    | succ count =>
      have hrest : Splits rest target count := by
        refine ⟨Nat.le_of_succ_le_succ h.count_le, fun i other hother => ?_⟩
        have hbehind := h.le_iff (i + 1) other hother
        omega
      rw [List.takeWhile_cons_of_pos (by simpa using hfirst), List.length_cons, ih hrest]

/-- The entries of an increasing list are in the order of their places. -/
theorem le_iff_of_getElem? (hsorted : numbers.Pairwise (· < ·)) {i j a b : Nat}
    (ha : numbers[i]? = some a) (hb : numbers[j]? = some b) : a ≤ b ↔ i ≤ j := by
  obtain ⟨hi, rfl⟩ := List.getElem?_eq_some_iff.mp ha
  obtain ⟨hj, rfl⟩ := List.getElem?_eq_some_iff.mp hb
  have hlt := List.pairwise_iff_getElem.mp hsorted
  rcases Nat.lt_trichotomy i j with hij | rfl | hji
  · have := hlt i j hi hj hij
    omega
  · simp
  · have := hlt j i hj hi hji
    omega

/-- **Halving finds the place** when all in front of the stretch that is searched is below the target
and all behind it is above. -/
theorem search_eq_ok (hsorted : numbers.Pairwise (· < ·)) {low high : Nat} (hlow : low ≤ high)
    (hhigh : high ≤ numbers.length)
    (hbelow : ∀ i entry, i < low → numbers[i]? = some entry → entry < target)
    (habove : ∀ i entry, high ≤ i → numbers[i]? = some entry → target < entry) :
    ∃ place, search numbers target low high = .ok place ∧ Splits numbers target place.count := by
  induction hwidth : high - low using Nat.strongRecOn generalizing low high with
  | ind width ih =>
    rw [search]
    by_cases hlt : low < high
    · have hbounds : low ≤ low + (high - low) / 2 ∧ low + (high - low) / 2 < high := by omega
      have hin : low + (high - low) / 2 < numbers.length := Nat.lt_of_lt_of_le hbounds.2 hhigh
      have hmiddle := List.getElem?_eq_getElem hin
      generalize low + (high - low) / 2 = middle at hbounds hin hmiddle
      generalize numbers[middle] = found at hmiddle
      rw [if_pos hlt]
      simp only [access_eq_ok hmiddle, bind, Except.bind]
      rcases Nat.lt_trichotomy found target with hfound | rfl | hfound
      · -- the middle and all in front of it is below
        rw [if_neg (Nat.ne_of_lt hfound), if_pos hfound]
        refine ih (high - (middle + 1)) (by omega) (by omega) hhigh (fun i entry hi hentry => ?_)
          habove rfl
        have := le_iff_of_getElem? hsorted hentry hmiddle
        omega
      · rw [if_pos rfl]
        refine ⟨.found middle, rfl, hin, fun i entry hentry => ?_⟩
        rw [le_iff_of_getElem? hsorted hentry hmiddle]
        exact Nat.lt_succ_iff.symm
      · -- the middle and all behind it is above
        rw [if_neg (Nat.ne_of_gt hfound), if_neg (Nat.lt_asymm hfound)]
        refine ih (middle - low) (by omega) (by omega) (by omega) hbelow
          (fun i entry hi hentry => ?_) rfl
        have := le_iff_of_getElem? hsorted hmiddle hentry
        omega
    · rw [if_neg hlt]
      obtain rfl : low = high := by omega
      refine ⟨.missing low, rfl, hhigh, fun i entry hentry => ?_⟩
      show entry ≤ target ↔ i < low
      by_cases hi : i < low
      · have := hbelow i entry hi hentry
        omega
      · have := habove i entry (by omega) hentry
        omega

end Search

end Guarded

/-! ## The starts of the lines -/

namespace LineIndex

section Starts
variable {text : List Char} {offset start : Nat}

/-- A line behind a terminator starts at a boundary of the text, behind where the text begins. -/
theorem boundary_of_mem_startsFrom (h : start ∈ startsFrom offset text) :
    ∃ behind, start = offset + behind ∧ 0 < behind ∧ IsBoundary behind text := by
  induction text generalizing offset with
  | nil => simp [startsFrom] at h
  | cons c rest ih =>
    have hpos := c.utf8Size_pos
    have hnext (hmem : start ∈ startsFrom (offset + c.utf8Size) rest) :
        ∃ behind, start = offset + behind ∧ 0 < behind ∧ IsBoundary behind (c :: rest) := by
      obtain ⟨behind, rfl, -, hbehind⟩ := ih hmem
      exact ⟨c.utf8Size + behind, Nat.add_assoc .., by omega,
        isBoundary_cons_iff.mpr (Or.inr ⟨behind, rfl, hbehind⟩)⟩
    rw [startsFrom] at h
    split at h
    · rcases List.mem_cons.mp h with rfl | hmem
      · exact ⟨c.utf8Size, rfl, hpos, [c], ⟨rest, rfl⟩, rfl⟩
      · exact hnext hmem
    · exact hnext h

theorem lt_of_mem_startsFrom (h : start ∈ startsFrom offset text) : offset < start := by
  obtain ⟨behind, rfl, hpos, -⟩ := boundary_of_mem_startsFrom h
  omega

theorem startsFrom_pairwise (offset : Nat) (text : List Char) :
    (startsFrom offset text).Pairwise (· < ·) := by
  induction text generalizing offset with
  | nil => exact .nil
  | cons c rest ih =>
    rw [startsFrom]
    split
    · exact .cons (fun _ hmem => lt_of_mem_startsFrom hmem) (ih _)
    · exact ih _

theorem length_startsFrom_le (offset : Nat) (text : List Char) :
    (startsFrom offset text).length ≤ byteSize text := by
  induction text generalizing offset with
  | nil => exact Nat.le_refl 0
  | cons c rest ih =>
    have hpos := c.utf8Size_pos
    have hrest := ih (offset + c.utf8Size)
    rw [startsFrom, byteSize_cons]
    split
    · rw [List.length_cons]
      omega
    · omega

/-- **The starts of the lines are strictly increasing.** -/
theorem starts_pairwise (text : List Char) : (ofChars text).starts.Pairwise (· < ·) :=
  .cons (fun _ hmem => lt_of_mem_startsFrom hmem) (startsFrom_pairwise 0 text)

/-- **Every line starts at a boundary of the text.** -/
theorem isBoundary_of_mem_starts (h : start ∈ (ofChars text).starts) : IsBoundary start text := by
  rcases List.mem_cons.mp h with rfl | h
  · exact isBoundary_zero text
  · obtain ⟨behind, rfl, -, hbehind⟩ := boundary_of_mem_startsFrom h
    rwa [Nat.zero_add]

theorem length_starts_le (text : List Char) : (ofChars text).starts.length ≤ byteSize text + 1 :=
  Nat.succ_le_succ (length_startsFrom_le 0 text)

end Starts

end LineIndex

namespace Guarded

/-! ## The scan of the bytes -/

section Scan
variable {offset : Nat} {text : List Char}

/-- No line ends at a byte behind ASCII. -/
theorem startsFrom_append {bytes : List UInt8} (hbytes : ∀ byte ∈ bytes, 0x80 ≤ byte)
    (rest : List UInt8) (hsize : offset + bytes.length ≤ maxUnsigned) :
    startsFrom offset (bytes ++ rest) = startsFrom (offset + bytes.length) rest := by
  induction bytes generalizing offset with
  | nil => rfl
  | cons byte bytes ih =>
    rw [List.forall_mem_cons] at hbytes
    rw [List.length_cons] at hsize
    have hne (other : UInt8) (hother : other < 0x80) : byte ≠ other := by
      rintro rfl
      exact UInt8.not_le.mpr hother hbytes.1
    have hrest := @ih (offset + 1) hbytes.2 (by omega)
    rw [List.cons_append, startsFrom, add_eq_ok (by omega)]
    simp only [bind, Except.bind, hrest, hne 0x0A (by decide), hne 0x0D (by decide), false_and,
      or_self, if_false]
    rw [List.length_cons, Nat.add_assoc, Nat.add_comm 1]
    cases startsFrom (offset + (bytes.length + 1)) rest <;> rfl

/-- **Scanning the bytes finds the starts of the lines.** -/
theorem startsFrom_encode (hsize : offset + byteSize text ≤ maxUnsigned) :
    startsFrom offset (encode text) = .ok (LineIndex.startsFrom offset text) := by
  induction text generalizing offset with
  | nil => rfl
  | cons c rest ih =>
    rw [byteSize_cons] at hsize
    have hlength := String.length_utf8EncodeChar c
    have hrest := @ih (offset + c.utf8Size) (by omega)
    rw [encode_cons, LineIndex.startsFrom]
    rcases utf8EncodeChar_cases c with ⟨hascii, hbytes⟩ | ⟨hhigh, -⟩
    · have hends : (UInt8.ofNat c.toNat = 0x0A ∨
          (UInt8.ofNat c.toNat = 0x0D ∧ (encode rest).head? ≠ some 0x0A)) ↔
          (c = '\n' ∨ (c = '\r' ∧ rest.head? ≠ some '\n')) :=
        or_congr (@ofNat_toNat_eq_iff c '\n' hascii (by decide))
          (and_congr (@ofNat_toNat_eq_iff c '\r' hascii (by decide))
            (not_congr (@head?_encode_eq_iff '\n' rest (by decide))))
      have hone : c.utf8Size = 1 := by rw [← hlength, hbytes, List.length_singleton]
      rw [hone] at hrest ⊢
      rw [hbytes, List.singleton_append, startsFrom, add_eq_ok (by omega)]
      simp only [bind, Except.bind, hrest, hends]
      split <;> rfl
    · have hne (d : Char) (hd : d.toNat < 0x80) : c ≠ d := by
        rintro rfl
        omega
      rw [startsFrom_append (le_of_mem_utf8EncodeChar hhigh) _ (by omega), hlength, hrest,
        if_neg (by simp [hne '\n' (by decide), hne '\r' (by decide)])]

theorem starts_eq_ok (hsize : byteSize text ≤ maxUnsigned) :
    starts (encode text) = .ok (LineIndex.ofChars text).starts := by
  rw [starts, startsFrom_encode (by omega)]
  rfl

end Scan

/-! ## The readings -/

open LineIndex (ofChars)

/-- The search finds the line of an offset, which starts at or before it. -/
theorem exists_search_eq_ok (text : List Char) (offset : Nat) :
    ∃ place before line after,
      search (ofChars text).starts offset 0 (ofChars text).starts.length = .ok place ∧
        splitLines text = before ++ line :: after ∧ before.length = place.last ∧
        (ofChars text).lineAt offset = place.last ∧ byteSize (before.flatMap Line.chars) ≤ offset := by
  obtain ⟨place, hsearch, hsplits⟩ := @search_eq_ok _ offset (LineIndex.starts_pairwise text) 0 _
    (Nat.zero_le _) (Nat.le_refl _) (fun i entry hi => absurd hi (Nat.not_lt_zero i))
    (fun i entry hi hentry => by rw [List.getElem?_eq_none hi] at hentry; cases hentry)
  -- the first line starts in front of every offset
  have hpos : 0 < place.count := (hsplits.le_iff 0 0 rfl).mp (Nat.zero_le offset)
  have hcount := hsplits.count_le
  have hlast := place.last_eq
  obtain ⟨before, line, after, hsplit, hbefore⟩ :=
    LineIndex.exists_line (show place.last < (ofChars text).lineCount by
      rw [LineIndex.lineCount]
      omega)
  refine ⟨place, before, line, after, hsearch, hsplit, hbefore, ?_, ?_⟩
  · rw [LineIndex.lineAt, hsplits.length_takeWhile, hlast]
  · exact (hsplits.le_iff _ _ (LineIndex.lineStart_eq hsplit)).mpr (by omega)

/-- What is passed on a line up to an offset is cut off at a boundary of its content, or is all of
it. -/
theorem isBoundary_passed {text : List Char} {before after : List Line} {line : Line} {offset : Nat}
    (hsplit : splitLines text = before ++ line :: after)
    (hle : byteSize (before.flatMap Line.chars) ≤ snap offset text) :
    IsBoundary (min (snap offset text - byteSize (before.flatMap Line.chars)) (byteSize line.content))
      line.content := by
  have htext := LineIndex.text_eq hsplit
  have hpre := prefix_takeBytes offset text
  obtain ⟨passed, hpassed⟩ := prefix_of_byteSize_le ⟨_, htext.symm⟩ hpre hle
  have hbehind : passed <+: line.chars ++ after.flatMap Line.chars := by
    rw [← hpassed] at hpre
    conv at hpre => rhs; rw [htext]
    exact (List.prefix_append_right_inj _).mp hpre
  have hcontent : line.content <+: line.chars ++ after.flatMap Line.chars := by
    rw [Line.chars, List.append_assoc]
    exact List.prefix_append ..
  rw [snap, ← hpassed, byteSize_append, Nat.add_sub_cancel_left]
  exact ⟨_, prefix_takeBytes _ _, byteSize_takeBytes_of_prefix hbehind hcontent⟩

section Readings
variable {text : List Char} (hsize : byteSize text < maxUnsigned)
include hsize

/-- The cut that gives a line is made between two boundaries, the start of the line and the start of
the next one or the end of the text. -/
theorem lineText_eq_ok (line : Nat) :
    lineText (ofChars text) line = .ok ((ofChars text).lineText line) := by
  have htext : (ofChars text).text = text := rfl
  rw [lineText, LineIndex.lineText, LineIndex.lineStart, LineIndex.lineStart, htext]
  cases hstart : (ofChars text).starts[line]? with
  | none => rfl
  | some start =>
    obtain ⟨hline, hfound⟩ := List.getElem?_eq_some_iff.mp hstart
    have hlines := LineIndex.length_starts_le text
    have hboundary : IsBoundary start text :=
      LineIndex.isBoundary_of_mem_starts (List.mem_of_getElem? hstart)
    have hstop : IsBoundary (((ofChars text).starts[line + 1]?).getD (byteSize text)) text ∧
        start ≤ ((ofChars text).starts[line + 1]?).getD (byteSize text) := by
      cases hnext : (ofChars text).starts[line + 1]? with
      | none => exact ⟨⟨text, List.prefix_refl text, rfl⟩, hboundary.le_byteSize⟩
      | some next =>
        exact ⟨LineIndex.isBoundary_of_mem_starts (List.mem_of_getElem? hnext),
          (le_iff_of_getElem? (LineIndex.starts_pairwise text) hstart hnext).mpr (Nat.le_succ line)⟩
    simp only [bind, Except.bind, add_eq_ok (show line + 1 ≤ maxUnsigned by omega),
      cutOut_eq_ok hstop.2 hboundary hstop.1]
    rfl

theorem lineLength_eq_ok (line : Nat) :
    lineLength (ofChars text) line = .ok ((ofChars text).lineLength line) := by
  rw [lineLength, lineText_eq_ok hsize]
  rfl

/-- What stands before a column ends within the text, so its size is a word. -/
theorem offset?_eq_ok (position : Position) :
    offset? (ofChars text) position = .ok ((ofChars text).offset? position) := by
  rw [offset?, lineText_eq_ok hsize]
  by_cases hline : position.line < (ofChars text).lineCount
  · obtain ⟨before, line, after, column, hsplit, rfl⟩ := LineIndex.exists_line_of_position hline
    have hstart := LineIndex.lineStart_eq hsplit
    have hupTo := (LineIndex.byteSize_upTo_bounds before line column).2
    have hprefix : before.flatMap Line.chars ++ line.content <+: text := by
      refine ⟨line.terminator ++ after.flatMap Line.chars, ?_⟩
      conv => rhs; rw [LineIndex.text_eq hsplit]
      simp [Line.chars]
    have hinside := byteSize_le_of_prefix hprefix
    rw [byteSize_append] at hupTo
    rw [LineIndex.offset?_eq hsplit, LineIndex.lineText_eq hsplit, byteSize_append]
    simp only [bind, Except.bind, access_eq_ok hstart, add_eq_ok (show
      byteSize (before.flatMap Line.chars) + byteSize (line.content.take column) ≤ maxUnsigned by
        omega)]
    rfl
  · have hstart : (ofChars text).lineStart position.line = none :=
      List.getElem?_eq_none (Nat.le_of_not_lt hline)
    rw [LineIndex.offset?_eq_none (Nat.le_of_not_lt hline), LineIndex.lineText, hstart]
    rfl

/-- Every step on the way to a position is possible: going back ends, the search finds the line, that
line starts at or before the offset, and what is passed of it ends at a boundary of its content. -/
theorem position_eq_ok (offset : Nat) :
    position (ofChars text) offset = .ok ((ofChars text).position offset) := by
  have htext : (ofChars text).text = text := rfl
  have hsnap : snap (min offset (byteSize text)) text = snap offset text := by
    rw [snap, takeBytes_min, snap]
  obtain ⟨place, before, line, after, hsearch, hsplit, hbefore, hlineAt, hle⟩ :=
    exists_search_eq_ok text (snap offset text)
  have hline := LineIndex.lineText_eq hsplit
  have hstart := LineIndex.lineStart_eq hsplit
  rw [hbefore] at hline hstart
  have hpassed := cutOut_eq_ok (Nat.zero_le _) (isBoundary_zero _) (isBoundary_passed hsplit hle)
  rw [slice, dropBytes_zero, Nat.sub_zero, takeBytes_min] at hpassed
  rw [position, htext, goBack_eq_ok, hsnap]
  simp only [bind, Except.bind, hsearch, lineText_eq_ok hsize, hline, access_eq_ok hstart,
    Option.getD_some, sub_eq_ok hle, hpassed]
  simp only [LineIndex.position, htext, hlineAt, hline, hstart, Option.getD_some]
  rfl

end Readings

/-- **Reading the line index never traps.**  The starts of the lines, as the scan of the bytes finds
them, begin with zero and are strictly increasing boundaries of the text.  So no access, no cut, no sum
and no difference fails, for any line, column and offset, and each reading gives what the index gives;
and going back from inside a character ends after at most three steps.

The text is shorter than the largest word, as every text is that can be addressed. -/
theorem guarded_index_never_traps (text : String) (hsize : byteSize text.toList < maxUnsigned) :
    starts (utf8Bytes text) = .ok (LineIndex.ofText text).starts ∧
      (LineIndex.ofText text).starts.head? = some 0 ∧
      (LineIndex.ofText text).starts.Pairwise (· < ·) ∧
      (∀ start ∈ (LineIndex.ofText text).starts,
        start ≤ byteSize text.toList ∧ IsBoundary start text.toList) ∧
      (∀ line, lineText (.ofText text) line = .ok ((LineIndex.ofText text).lineText line) ∧
        lineLength (.ofText text) line = .ok ((LineIndex.ofText text).lineLength line)) ∧
      (∀ place, offset? (.ofText text) place = .ok ((LineIndex.ofText text).offset? place)) ∧
      ∀ offset, position (.ofText text) offset = .ok ((LineIndex.ofText text).position offset) ∧
        ∃ stop, goBack (utf8Bytes text) (min offset (byteSize text.toList)) = .ok stop ∧
          IsBoundary stop text.toList ∧ stop ≤ min offset (byteSize text.toList) ∧
          min offset (byteSize text.toList) ≤ stop + 3 := by
  rw [utf8Bytes_eq_encode]
  refine ⟨starts_eq_ok (Nat.le_of_lt hsize), rfl, LineIndex.starts_pairwise text.toList, ?_, ?_,
    offset?_eq_ok hsize, ?_⟩
  · intro start hstart
    have hboundary := LineIndex.isBoundary_of_mem_starts hstart
    exact ⟨hboundary.le_byteSize, hboundary⟩
  · intro line
    exact ⟨lineText_eq_ok hsize line, lineLength_eq_ok hsize line⟩
  · intro offset
    exact ⟨position_eq_ok hsize offset, _, goBack_eq_ok _ _, isBoundary_snap _ _, snap_le _ _,
      le_snap_add_three (Nat.min_le_right ..)⟩

/-- The largest words as line, as column and as offset, and an offset inside a character. -/
theorem guarded_index_never_traps_at_largest_words :
    byteSize "é\r\nb".toList < maxUnsigned ∧ starts (utf8Bytes "é\r\nb") = .ok [0, 4] ∧
      lineText (.ofText "é\r\nb") maxUnsigned = .ok none ∧
      offset? (.ofText "é\r\nb") ⟨1, maxUnsigned⟩ = .ok (some 5) ∧
      position (.ofText "é\r\nb") maxUnsigned = .ok ⟨1, 1⟩ ∧
      position (.ofText "é\r\nb") 1 = .ok ⟨0, 0⟩ := by
  have hsize : byteSize "é\r\nb".toList < maxUnsigned := by decide
  obtain ⟨hstarts, -, -, -, hlines, hoffsets, hpositions⟩ := guarded_index_never_traps "é\r\nb" hsize
  exact ⟨hsize, hstarts, (hlines maxUnsigned).1, hoffsets ⟨1, maxUnsigned⟩, (hpositions maxUnsigned).1,
    (hpositions 1).1⟩

/-- A start that is no boundary would make the reading trap. -/
example : lineText ⟨['é'], [0, 1]⟩ 0 = .error .splitCharacter := by decide

end Guarded
end QueryLocator
